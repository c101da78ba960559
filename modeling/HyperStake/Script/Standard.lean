import HyperStake.Script.SigOps
import HyperStake.Transaction

/-!
# Standard scripts

`Solver` takes the scripts of outputs apart: a public key or its hash, some of several keys, the hash
of a script, or data.  `IsMine` says by this whether the keys for an output are in a keystore, and
`SignSignature` makes the script of an input that claims it.

The signatures are left open: what a key signs, and which signatures a public key verifies.  The
cache of valid signatures in `CheckSig` is left out, since it only holds what has been verified.
-/

namespace HyperStake

open LittleEndian

/-! ## Templates -/

def OP_SMALLINTEGER : UInt8 := 0xfa
def OP_PUBKEYS : UInt8 := 0xfb
def OP_PUBKEYHASH : UInt8 := 0xfd
def OP_PUBKEY : UInt8 := 0xfe

/-- The kinds of scripts of outputs. -/
inductive TxnOutType where
  | TX_NONSTANDARD
  | TX_PUBKEY
  | TX_PUBKEYHASH
  | TX_SCRIPTHASH
  | TX_MULTISIG
  | TX_NULL_DATA
  deriving DecidableEq, Repr

/-- The templates, in the order of their types. -/
def mTemplates : List (TxnOutType × CScript) :=
  [(.TX_PUBKEY, [OP_PUBKEY, OP_CHECKSIG]),
   (.TX_PUBKEYHASH, [OP_DUP, OP_HASH160, OP_PUBKEYHASH, OP_EQUALVERIFY, OP_CHECKSIG]),
   (.TX_MULTISIG, [OP_SMALLINTEGER, OP_PUBKEYS, OP_SMALLINTEGER, OP_CHECKMULTISIG])]

namespace CScript

/-- The loop of `Solver` that takes public keys, over the operations from a first one on.  Returns
the public keys, the operation after them, and the rest of the script. -/
def takePubKeys (opcode : UInt8) (vch : Bytes) (pc : CScript) :
    List Bytes × UInt8 × Bytes × CScript :=
  if vch.length ≥ 33 ∧ vch.length ≤ 120 then
    match _h : getOp2 pc with
    | none => ([vch], OP_INVALIDOPCODE, [], pc)
    | some (opcode', vch', pc') =>
      let (keys, rest) := takePubKeys opcode' vch' pc'
      (vch :: keys, rest)
  else ([], opcode, vch, pc)
termination_by pc.length
decreasing_by exact length_lt_of_getOp2 _h

/-- An opcode of a template takes an operation: the solutions that it adds, or none if the two do not
match. -/
def matchOp (opcode2 opcode1 : UInt8) (vch1 : Bytes) : Option (List Bytes) :=
  if opcode2 = OP_PUBKEY then
    if vch1.length < 33 ∨ vch1.length > 120 then none else some [vch1]
  else if opcode2 = OP_PUBKEYHASH then
    if vch1.length ≠ 20 then none else some [vch1]
  else if opcode2 = OP_SMALLINTEGER then
    -- single-byte small integer pushed onto the solutions
    if opcode1 = OP_0 ∨ OP_1 ≤ opcode1 ∧ opcode1 ≤ OP_16 then
      some [[UInt8.ofNat (decodeOP_N opcode1)]]
    else none
  -- others must match exactly
  else if opcode1 ≠ opcode2 ∨ vch1 ≠ [] then none
  else some []

/-- The loop of `Solver` that compares a script with a template. -/
def matchTemplate : List UInt8 → CScript → List Bytes → Option (List Bytes)
  | [], pc1, vSolutions => if pc1 = [] then some vSolutions else none
  | opcode2 :: pc2, pc1, vSolutions =>
    match getOp2 pc1 with
    | none => none
    | some (opcode1, vch1, pc1) =>
      if opcode2 = OP_PUBKEYS then
        let (keys, opcode1, vch1, pc1) := takePubKeys opcode1 vch1 pc1
        match pc2 with
        | [] => none
        | opcode2 :: pc2 =>
          (matchOp opcode2 opcode1 vch1).bind fun taken =>
            matchTemplate pc2 pc1 (vSolutions ++ keys ++ taken)
      else
        (matchOp opcode2 opcode1 vch1).bind fun taken => matchTemplate pc2 pc1 (vSolutions ++ taken)

/-- The additional checks of `Solver` for `TX_MULTISIG`. -/
def checkMultiSigSolutions (vSolutions : List Bytes) : Bool :=
  match vSolutions.head?.bind List.head?, vSolutions.getLast?.bind List.head? with
  | some m, some n =>
    !(decide (m < 1) || decide (n < 1) || decide (m > n) || vSolutions.length - 2 != n.toNat)
  | _, _ => false

/-- The loop of `Solver` over the templates. -/
def scanTemplates (s : CScript) :
    List (TxnOutType × CScript) → Option (TxnOutType × List Bytes)
  | [] => none
  | (type, template) :: templates =>
    match matchTemplate template s [] with
    | none => scanTemplates s templates
    | some vSolutions =>
      if type = .TX_MULTISIG ∧ !checkMultiSigSolutions vSolutions then none
      else some (type, vSolutions)

/-- `Solver`: the kind of the script of an output with its public keys or hashes, or none if it
returns false. -/
def solver (s : CScript) : Option (TxnOutType × List Bytes) :=
  -- shortcut for pay-to-script-hash, which are more constrained than the other types
  if s.isPayToScriptHash then some (.TX_SCRIPTHASH, [(s.drop 2).take 20])
  else if s.head? = some OP_RETURN ∧ isPushOnly (s.drop 1) then some (.TX_NULL_DATA, [])
  else scanTemplates s mTemplates

end CScript

/-- The `uint160` of some bytes. -/
def uint160 (vch : Bytes) : BitVec 160 :=
  if vch.length = 20 then BitVec.ofNat 160 (leValue vch) else 0

/-! ## Signatures -/

/-- The digests, and `SetPubKey` and `Verify` of a public key, a hash and a signature. -/
structure Crypto where
  ripemd160 : Bytes → BitVec 160
  sha1 : Bytes → BitVec 160
  sha256 : Bytes → UInt256
  verify : Bytes → UInt256 → Bytes → Bool

namespace Crypto

variable (crypto : Crypto)

def hash (vch : Bytes) : UInt256 := crypto.sha256 (serializeUInt256 (crypto.sha256 vch))

def hash160 (vch : Bytes) : BitVec 160 := crypto.ripemd160 (serializeUInt256 (crypto.sha256 vch))

end Crypto

/-! ## Destinations -/

inductive CTxDestination where
  | CNoDestination
  | CKeyID (keyID : BitVec 160)
  | CScriptID (scriptID : BitVec 160)
  deriving DecidableEq

namespace CScript

/-- `ExtractDestination`: the destination, or none if it returns false. -/
def extractDestination (crypto : Crypto) (scriptPubKey : CScript) : Option CTxDestination :=
  match scriptPubKey.solver with
  | some (.TX_PUBKEY, vSolutions) => some (.CKeyID (crypto.hash160 (vSolutions.headD [])))
  | some (.TX_PUBKEYHASH, vSolutions) => some (.CKeyID (uint160 (vSolutions.headD [])))
  | some (.TX_SCRIPTHASH, vSolutions) => some (.CScriptID (uint160 (vSolutions.headD [])))
  -- multisig txns have more than one address
  | _ => none

/-- `operator<<` on a `uint160`. -/
def pushUInt160 (s : CScript) (b : BitVec 160) : CScript := s ++ 20 :: leBytes 20 b.toNat

def setDestination : CTxDestination → CScript
  | .CNoDestination => []
  | .CKeyID keyID =>
    let script := pushUInt160 (pushOpcode (pushOpcode [] OP_DUP) OP_HASH160) keyID
    pushOpcode (pushOpcode script OP_EQUALVERIFY) OP_CHECKSIG
  | .CScriptID scriptID =>
    pushOpcode (pushUInt160 (pushOpcode [] OP_HASH160) scriptID) OP_EQUAL

end CScript

/-! ## The hash that is signed -/

def SIGHASH_NONE : Int32 := 2
def SIGHASH_SINGLE : Int32 := 3
def SIGHASH_ANYONECANPAY : Int32 := 0x80

/-- The transaction that `SignatureHash` hashes, or none if an index is out of range. -/
def sigHashTx (scriptCode : CScript) (txTo : CTransaction) (nIn : ℕ) (nHashType : Int32) :
    Option CTransaction :=
  if nIn ≥ txTo.vin.length then none
  else
    -- blank out other inputs' signatures
    let vin := (txTo.vin.map fun txin => { txin with scriptSig := [] }).modify nIn fun txin =>
      { txin with scriptSig := CScript.findAndDelete [OP_CODESEPARATOR] scriptCode }
    -- let the others update at will
    let vinOpen := vin.mapIdx fun i txin => if i ≠ nIn then { txin with nSequence := 0 } else txin
    -- blank out some of the outputs
    let blanked : Option CTransaction :=
      if nHashType &&& 0x1f = SIGHASH_NONE then some { txTo with vin := vinOpen, vout := [] }
      else if nHashType &&& 0x1f = SIGHASH_SINGLE then
        match txTo.vout[nIn]? with
        | none => none
        | some txout => some { txTo with vin := vinOpen, vout := List.replicate nIn {} ++ [txout] }
      else some { txTo with vin }
    -- blank out other inputs completely
    if nHashType &&& SIGHASH_ANYONECANPAY ≠ 0 then
      blanked.map fun txTmp => { txTmp with vin := txTmp.vin[nIn]?.toList }
    else blanked

def signatureHash (crypto : Crypto) (scriptCode : CScript) (txTo : CTransaction) (nIn : ℕ)
    (nHashType : Int32) : UInt256 :=
  match sigHashTx scriptCode txTo nIn nHashType with
  | none => 1
  | some txTmp => crypto.hash (txTmp.serialize ++ serializeInt32 nHashType)

def checkSig (crypto : Crypto) (vchSig vchPubKey : Bytes) (scriptCode : CScript)
    (txTo : CTransaction) (nIn : ℕ) (nHashType : Int32) : Bool :=
  -- hash type is one byte tacked on to the end of the signature
  match vchSig.getLast? with
  | none => false
  | some back =>
    if nHashType ≠ 0 ∧ nHashType ≠ back.toUInt32.toInt32 then false
    else crypto.verify vchPubKey
      (signatureHash crypto scriptCode txTo nIn back.toUInt32.toInt32) vchSig.dropLast

/-- What scripts call in the verification of an input. -/
def Crypto.scriptEnv (crypto : Crypto) (txTo : CTransaction) (nIn : ℕ) (nHashType : Int32) :
    ScriptEnv where
  ripemd160 := crypto.ripemd160
  sha1 := crypto.sha1
  sha256 := crypto.sha256
  checkSig vchSig vchPubKey scriptCode :=
    HyperStake.checkSig crypto vchSig vchPubKey scriptCode txTo nIn nHashType

/-! ## Keystores -/

/-- A private key that is unlocked. -/
structure CKey where
  /-- `GetPubKey().Raw()`. -/
  getPubKey : Bytes
  /-- `Sign`: the signature of a hash, or none if it fails. -/
  sign : UInt256 → Option Bytes

/-- A keystore: the keys and the scripts by the hashes under which they are added. -/
structure CKeyStore (crypto : Crypto) where
  getKey : BitVec 160 → Option CKey
  getCScript : BitVec 160 → Option CScript
  getID_getPubKey : ∀ {keyID key}, getKey keyID = some key → crypto.hash160 key.getPubKey = keyID
  isValid_getPubKey : ∀ {keyID key}, getKey keyID = some key →
    key.getPubKey.length = 33 ∨ key.getPubKey.length = 65
  getID_getCScript : ∀ {hash script}, getCScript hash = some script → crypto.hash160 script = hash

namespace CKeyStore

variable {crypto : Crypto} (keystore : CKeyStore crypto)

def haveKey (keyID : BitVec 160) : Bool := (keystore.getKey keyID).isSome

def haveKeys (pubkeys : List Bytes) : ℕ :=
  pubkeys.countP fun pubkey => keystore.haveKey (crypto.hash160 pubkey)

/-- `IsMine`, with a bound on the depth of the recursion: none if it is reached. -/
def isMine : ℕ → CScript → Option Bool
  | 0, _ => none
  | depth + 1, scriptPubKey =>
    match scriptPubKey.solver with
    | none => some false
    | some (.TX_NONSTANDARD, _) => some false
    | some (.TX_NULL_DATA, _) => some false
    | some (.TX_PUBKEY, vSolutions) =>
      some (keystore.haveKey (crypto.hash160 (vSolutions.headD [])))
    | some (.TX_PUBKEYHASH, vSolutions) => some (keystore.haveKey (uint160 (vSolutions.headD [])))
    | some (.TX_SCRIPTHASH, vSolutions) =>
      match keystore.getCScript (uint160 (vSolutions.headD [])) with
      | none => some false
      | some subscript => isMine depth subscript
    | some (.TX_MULTISIG, vSolutions) =>
      let keys := vSolutions.tail.dropLast
      some (keystore.haveKeys keys == keys.length)

/-! ## Signing -/

/-- `Sign1`: the script with the signature, or none if it returns false. -/
def sign1 (address : BitVec 160) (hash : UInt256) (nHashType : Int32) (scriptSigRet : CScript) :
    Option CScript := do
  let key ← keystore.getKey address
  let vchSig ← key.sign hash
  return scriptSigRet.pushData (vchSig ++ [nHashType.toUInt32.toUInt8])

/-- The loop of `SignN` over the public keys that are left: the number of signatures and the script
with them. -/
def signLoop (nRequired : ℕ) (hash : UInt256) (nHashType : Int32) :
    List Bytes → ℕ → CScript → ℕ × CScript
  | [], nSigned, scriptSigRet => (nSigned, scriptSigRet)
  | pubkey :: pubkeys, nSigned, scriptSigRet =>
    if nSigned < nRequired then
      match keystore.sign1 (crypto.hash160 pubkey) hash nHashType scriptSigRet with
      | some scriptSigRet => signLoop nRequired hash nHashType pubkeys (nSigned + 1) scriptSigRet
      | none => signLoop nRequired hash nHashType pubkeys nSigned scriptSigRet
    else (nSigned, scriptSigRet)

/-- `SignN`: what it returns, and the script with the signatures. -/
def signN (multisigdata : List Bytes) (hash : UInt256) (nHashType : Int32)
    (scriptSigRet : CScript) : Bool × CScript :=
  let nRequired := ((multisigdata.headD []).headD 0).toNat
  let (nSigned, scriptSigRet) :=
    keystore.signLoop nRequired hash nHashType multisigdata.tail.dropLast 0 scriptSigRet
  (nSigned == nRequired, scriptSigRet)

/-- `Solver` with a keystore: what it returns, the script for the input, or the redemption script for
`TX_SCRIPTHASH`, and the kind of the script. -/
def solver (scriptPubKey : CScript) (hash : UInt256) (nHashType : Int32) :
    Bool × CScript × TxnOutType :=
  match scriptPubKey.solver with
  | none => (false, [], .TX_NONSTANDARD)
  | some (type, vSolutions) =>
    match type with
    | .TX_NONSTANDARD => (false, [], type)
    | .TX_PUBKEY =>
      match keystore.sign1 (crypto.hash160 (vSolutions.headD [])) hash nHashType [] with
      | none => (false, [], type)
      | some scriptSigRet => (true, scriptSigRet, type)
    | .TX_PUBKEYHASH =>
      let keyID := uint160 (vSolutions.headD [])
      match keystore.sign1 keyID hash nHashType [] with
      | none => (false, [], type)
      | some scriptSigRet =>
        let vch := ((keystore.getKey keyID).map CKey.getPubKey).getD []
        (true, scriptSigRet.pushData vch, type)
    | .TX_SCRIPTHASH =>
      match keystore.getCScript (uint160 (vSolutions.headD [])) with
      | none => (false, [], type)
      | some subscript => (true, subscript, type)
    | .TX_MULTISIG =>
      -- workaround CHECKMULTISIG bug
      let (fSigned, scriptSigRet) :=
        keystore.signN vSolutions hash nHashType (CScript.pushOpcode [] OP_0)
      (fSigned, scriptSigRet, type)
    | .TX_NULL_DATA => (true, [], type)

end CKeyStore

/-- The transaction with another script in the input at a position. -/
def CTransaction.setScriptSig (tx : CTransaction) (nIn : ℕ) (scriptSig : CScript) : CTransaction :=
  { tx with vin := tx.vin.modify nIn fun txin => { txin with scriptSig } }

namespace CKeyStore

variable {crypto : Crypto} (keystore : CKeyStore crypto)

/-- The script that `SignSignature` makes for an input, and whether it is complete. -/
def makeScriptSig (fromPubKey : CScript) (txTo : CTransaction) (nIn : ℕ) (nHashType : Int32) :
    Bool × CScript :=
  -- leave out the signature from the hash, since a signature can't sign itself
  let hash := signatureHash crypto fromPubKey txTo nIn nHashType
  match keystore.solver fromPubKey hash nHashType with
  | (false, scriptSig, _) => (false, scriptSig)
  | (true, subscript, .TX_SCRIPTHASH) =>
    -- recompute txn hash using subscript in place of scriptPubKey
    let hash2 := signatureHash crypto subscript (txTo.setScriptSig nIn subscript) nIn nHashType
    let (fSolved, scriptSig, subType) := keystore.solver subscript hash2 nHashType
    -- append serialized subscript whether or not it is completely signed
    (fSolved && decide (subType ≠ .TX_SCRIPTHASH), scriptSig.pushData subscript)
  | (true, scriptSig, _) => (true, scriptSig)

/-- `SignSignature`: what it returns, and the transaction as it leaves it. -/
def signSignature (fromPubKey : CScript) (txTo : CTransaction) (nIn : ℕ) (nHashType : Int32) :
    Except Fault Bool × CTransaction :=
  if nIn ≥ txTo.vin.length then (.error .undefined, txTo)
  else
    let (fSolved, scriptSig) := keystore.makeScriptSig fromPubKey txTo nIn nHashType
    let tx := txTo.setScriptSig nIn scriptSig
    if !fSolved then (.ok false, tx)
    -- test solution
    else (((crypto.scriptEnv tx nIn 0).verifyScript scriptSig fromPubKey true).result, tx)

end CKeyStore

end HyperStake
