import HyperStake.Library.Stopping
import HyperStake.Script

/-!
# The script machine

What one operation of a script does in `EvalScript`, on the two stacks and the other variables of
its loop.  A stack is the list of its elements, the top one first, so `stacktop (i)` is
`stacktop(-i)` in the source.

An operation returns, or it stops `EvalScript`: by `return false`, or by an exception, which the
loop catches.  An access outside of a vector that is not checked is a stop of its own, since
nothing catches it.

The cases of the switch for the disabled opcodes are left out.  The loop ends before it reaches
them.
-/

namespace HyperStake

open LittleEndian Stopping

/-! ## Opcodes -/

def OP_0 : UInt8 := 0x00
def OP_1NEGATE : UInt8 := 0x4f
def OP_1 : UInt8 := 0x51
def OP_16 : UInt8 := 0x60
def OP_NOP : UInt8 := 0x61
def OP_IF : UInt8 := 0x63
def OP_NOTIF : UInt8 := 0x64
def OP_ELSE : UInt8 := 0x67
def OP_ENDIF : UInt8 := 0x68
def OP_VERIFY : UInt8 := 0x69
def OP_TOALTSTACK : UInt8 := 0x6b
def OP_FROMALTSTACK : UInt8 := 0x6c
def OP_2DROP : UInt8 := 0x6d
def OP_2DUP : UInt8 := 0x6e
def OP_3DUP : UInt8 := 0x6f
def OP_2OVER : UInt8 := 0x70
def OP_2ROT : UInt8 := 0x71
def OP_2SWAP : UInt8 := 0x72
def OP_IFDUP : UInt8 := 0x73
def OP_DEPTH : UInt8 := 0x74
def OP_DROP : UInt8 := 0x75
def OP_DUP : UInt8 := 0x76
def OP_NIP : UInt8 := 0x77
def OP_OVER : UInt8 := 0x78
def OP_PICK : UInt8 := 0x79
def OP_ROLL : UInt8 := 0x7a
def OP_ROT : UInt8 := 0x7b
def OP_SWAP : UInt8 := 0x7c
def OP_TUCK : UInt8 := 0x7d
def OP_CAT : UInt8 := 0x7e
def OP_SUBSTR : UInt8 := 0x7f
def OP_LEFT : UInt8 := 0x80
def OP_RIGHT : UInt8 := 0x81
def OP_SIZE : UInt8 := 0x82
def OP_INVERT : UInt8 := 0x83
def OP_AND : UInt8 := 0x84
def OP_OR : UInt8 := 0x85
def OP_XOR : UInt8 := 0x86
def OP_EQUAL : UInt8 := 0x87
def OP_EQUALVERIFY : UInt8 := 0x88
def OP_1ADD : UInt8 := 0x8b
def OP_1SUB : UInt8 := 0x8c
def OP_2MUL : UInt8 := 0x8d
def OP_2DIV : UInt8 := 0x8e
def OP_NEGATE : UInt8 := 0x8f
def OP_ABS : UInt8 := 0x90
def OP_NOT : UInt8 := 0x91
def OP_0NOTEQUAL : UInt8 := 0x92
def OP_ADD : UInt8 := 0x93
def OP_SUB : UInt8 := 0x94
def OP_MUL : UInt8 := 0x95
def OP_DIV : UInt8 := 0x96
def OP_MOD : UInt8 := 0x97
def OP_LSHIFT : UInt8 := 0x98
def OP_RSHIFT : UInt8 := 0x99
def OP_BOOLAND : UInt8 := 0x9a
def OP_BOOLOR : UInt8 := 0x9b
def OP_NUMEQUAL : UInt8 := 0x9c
def OP_NUMEQUALVERIFY : UInt8 := 0x9d
def OP_NUMNOTEQUAL : UInt8 := 0x9e
def OP_LESSTHAN : UInt8 := 0x9f
def OP_GREATERTHAN : UInt8 := 0xa0
def OP_LESSTHANOREQUAL : UInt8 := 0xa1
def OP_GREATERTHANOREQUAL : UInt8 := 0xa2
def OP_MIN : UInt8 := 0xa3
def OP_MAX : UInt8 := 0xa4
def OP_WITHIN : UInt8 := 0xa5
def OP_RIPEMD160 : UInt8 := 0xa6
def OP_SHA1 : UInt8 := 0xa7
def OP_SHA256 : UInt8 := 0xa8
def OP_HASH160 : UInt8 := 0xa9
def OP_HASH256 : UInt8 := 0xaa
def OP_CODESEPARATOR : UInt8 := 0xab
def OP_CHECKSIG : UInt8 := 0xac
def OP_CHECKSIGVERIFY : UInt8 := 0xad
def OP_CHECKMULTISIG : UInt8 := 0xae
def OP_CHECKMULTISIGVERIFY : UInt8 := 0xaf
def OP_NOP1 : UInt8 := 0xb0
def OP_NOP10 : UInt8 := 0xb9

/-- The opcodes that end every script in which they are read. -/
def disabledOpcodes : List UInt8 :=
  [OP_CAT, OP_SUBSTR, OP_LEFT, OP_RIGHT, OP_INVERT, OP_AND, OP_OR, OP_XOR, OP_2MUL, OP_2DIV, OP_MUL,
    OP_DIV, OP_MOD, OP_LSHIFT, OP_RSHIFT]

/-! ## Values -/

def vchFalse : Bytes := []

def vchTrue : Bytes := [1]

/-- The largest size of the bytes of a number that an operation reads. -/
def nMaxNumSize : ℕ := 4

/-- `CastToBool`: some byte is not zero, and the value is not a negative zero. -/
def castToBool : Bytes → Bool
  | [] => false
  | [byte] => byte != 0 && byte != 0x80
  | byte :: next :: vch => byte != 0 || castToBool (next :: vch)

/-- `CBigNum::setvch`: the number of some bytes, least significant first, with its sign in the
highest bit. -/
def setvch (vch : Bytes) : ℤ :=
  let magnitude := leValue vch
  if magnitude < 2 ^ (8 * vch.length - 1) then magnitude
  else -(magnitude - 2 ^ (8 * vch.length - 1) : ℤ)

/-- `CBigNum::getint`. -/
def getint (bn : ℤ) : ℤ :=
  if bn.natAbs < 2 ^ 31 then bn else if 0 ≤ bn then 2 ^ 31 - 1 else -2 ^ 31

/-! ## The machine -/

/-- How an operation ends the script. -/
inductive Stop where
  /-- `return false`. -/
  | fail
  /-- `std::out_of_range`, thrown by `stack.at`. -/
  | outOfRange
  /-- `std::runtime_error`, thrown by `popstack`. -/
  | stackEmpty
  /-- `std::runtime_error`, thrown by `CastToBigNum`. -/
  | overflow
  /-- An iterator outside of its vector. -/
  | undefined
  deriving DecidableEq, Repr

/-- The variables of the loop of `EvalScript`, and the number of calls of `CheckSig`. -/
structure ScriptState where
  stack : List Bytes := []
  altstack : List Bytes := []
  /-- Whether the branches that the script is in are taken, the innermost first. -/
  vfExec : List Bool := []
  nOpCount : ℕ := 0
  /-- The script after the last code separator. -/
  pbegincodehash : CScript := []
  nChecks : ℕ := 0
  deriving DecidableEq, Repr

/-- All branches that the script is in are taken. -/
def ScriptState.fExec (s : ScriptState) : Bool := !s.vfExec.contains false

/-- The digests, and `CheckSig` for the input of a transaction that is verified. -/
structure ScriptEnv where
  ripemd160 : Bytes → BitVec 160
  sha1 : Bytes → BitVec 160
  sha256 : Bytes → UInt256
  /-- `CheckSig` of a signature, a public key and a script. -/
  checkSig : Bytes → Bytes → CScript → Bool

/-- A part of an operation. -/
abbrev Eval (α : Type) := ExceptT Stop (StateM ScriptState) α

namespace Eval

/-- `if (...) return false`. -/
def failIf (p : Prop) [Decidable p] : Eval Unit := if p then throw .fail else pure ()

/-- `if (stack.size() < n) return false`. -/
def need (n : ℕ) : Eval Unit := do failIf ((← get).stack.length < n)

/-- `stacktop`: the element that is the given number from the top. -/
def stacktop (i : ℕ) : Eval Bytes := do
  match (← get).stack[i - 1]? with
  | some vch => return vch
  | none => throw .outOfRange

def popstack : Eval Unit := do
  match (← get).stack with
  | [] => throw .stackEmpty
  | _ :: stack => modify fun s => { s with stack }

/-- `stack.push_back`. -/
def push (vch : Bytes) : Eval Unit := modify fun s => { s with stack := vch :: s.stack }

/-- `swap` of two elements, the first one deeper. -/
def swap (i j : ℕ) : Eval Unit := do
  let vch1 ← stacktop i
  let vch2 ← stacktop j
  modify fun s => { s with stack := (s.stack.set (i - 1) vch2).set (j - 1) vch1 }

/-- `stack.erase(stack.end() - i, stack.end() - j)`. -/
def erase (i j : ℕ) : Eval Unit := do
  if i ≤ (← get).stack.length then
    modify fun s => { s with stack := s.stack.take j ++ s.stack.drop i }
  else throw .undefined

/-- `stack.insert(stack.end() - i, vch)`. -/
def insert (i : ℕ) (vch : Bytes) : Eval Unit := do
  if i ≤ (← get).stack.length then
    modify fun s => { s with stack := s.stack.take i ++ vch :: s.stack.drop i }
  else throw .undefined

def castToBigNum (vch : Bytes) : Eval ℤ :=
  if vch.length > nMaxNumSize then throw .overflow else pure (setvch vch)

/-- Push a truth value. -/
def pushBool (fValue : Bool) : Eval Unit := push (if fValue then vchTrue else vchFalse)

/-- The end of an operation with a `VERIFY` variant. -/
def verifyIf (fVerify fSuccess : Bool) : Eval Unit :=
  if fVerify then if fSuccess then popstack else throw .fail else pure ()

/-! ## The cases of the switch -/

/-- `OP_1NEGATE`, `OP_1` to `OP_16`: ( -- value) -/
def opNumber (opcode : UInt8) : Eval Unit :=
  push (CScript.getvch ((opcode.toNat : ℤ) - ((OP_1.toNat : ℤ) - 1)))

/-- `OP_IF`, `OP_NOTIF`: <expression> if [statements] [else [statements]] endif -/
def opIf (fNot fExec : Bool) : Eval Unit := do
  let fValue ← if fExec then do
      need 1
      let fValue := castToBool (← stacktop 1)
      popstack
      pure (if fNot then !fValue else fValue)
    else pure false
  modify fun s => { s with vfExec := fValue :: s.vfExec }

def opElse : Eval Unit := do
  match (← get).vfExec with
  | [] => throw .fail
  | fValue :: vfExec => modify fun s => { s with vfExec := (!fValue) :: vfExec }

def opEndif : Eval Unit := do
  match (← get).vfExec with
  | [] => throw .fail
  | _ :: vfExec => modify fun s => { s with vfExec }

/-- `OP_VERIFY`: (true -- ) or (false -- false) and return -/
def opVerify : Eval Unit := do
  need 1
  if castToBool (← stacktop 1) then popstack else throw .fail

def opToAltStack : Eval Unit := do
  need 1
  let vch ← stacktop 1
  modify fun s => { s with altstack := vch :: s.altstack }
  popstack

def opFromAltStack : Eval Unit := do
  failIf ((← get).altstack.length < 1)
  match (← get).altstack with
  | [] => throw .outOfRange
  | vch :: altstack =>
    push vch
    modify fun s => { s with altstack }

/-- `OP_2DROP`: (x1 x2 -- ) -/
def op2Drop : Eval Unit := do
  need 2
  popstack
  popstack

/-- `OP_2DUP`: (x1 x2 -- x1 x2 x1 x2) -/
def op2Dup : Eval Unit := do
  need 2
  let vch1 ← stacktop 2
  let vch2 ← stacktop 1
  push vch1
  push vch2

/-- `OP_3DUP`: (x1 x2 x3 -- x1 x2 x3 x1 x2 x3) -/
def op3Dup : Eval Unit := do
  need 3
  let vch1 ← stacktop 3
  let vch2 ← stacktop 2
  let vch3 ← stacktop 1
  push vch1
  push vch2
  push vch3

/-- `OP_2OVER`: (x1 x2 x3 x4 -- x1 x2 x3 x4 x1 x2) -/
def op2Over : Eval Unit := do
  need 4
  let vch1 ← stacktop 4
  let vch2 ← stacktop 3
  push vch1
  push vch2

/-- `OP_2ROT`: (x1 x2 x3 x4 x5 x6 -- x3 x4 x5 x6 x1 x2) -/
def op2Rot : Eval Unit := do
  need 6
  let vch1 ← stacktop 6
  let vch2 ← stacktop 5
  erase 6 4
  push vch1
  push vch2

/-- `OP_2SWAP`: (x1 x2 x3 x4 -- x3 x4 x1 x2) -/
def op2Swap : Eval Unit := do
  need 4
  swap 4 2
  swap 3 1

/-- `OP_IFDUP`: (x - 0 | x x) -/
def opIfDup : Eval Unit := do
  need 1
  let vch ← stacktop 1
  if castToBool vch then push vch else pure ()

/-- `OP_DEPTH`: ( -- stacksize) -/
def opDepth : Eval Unit := do
  push (CScript.getvch (← get).stack.length)

/-- `OP_DROP`: (x -- ) -/
def opDrop : Eval Unit := do
  need 1
  popstack

/-- `OP_DUP`: (x -- x x) -/
def opDup : Eval Unit := do
  need 1
  push (← stacktop 1)

/-- `OP_NIP`: (x1 x2 -- x2) -/
def opNip : Eval Unit := do
  need 2
  erase 2 1

/-- `OP_OVER`: (x1 x2 -- x1 x2 x1) -/
def opOver : Eval Unit := do
  need 2
  push (← stacktop 2)

/-- `OP_PICK`, `OP_ROLL`: (xn ... x2 x1 x0 n - xn ... x2 x1 x0 xn), and without the first `xn` -/
def opPick (fRoll : Bool) : Eval Unit := do
  need 2
  let n := getint (← castToBigNum (← stacktop 1))
  popstack
  failIf (n < 0 ∨ n ≥ (← get).stack.length)
  let vch ← stacktop (n.toNat + 1)
  if fRoll then erase (n.toNat + 1) n.toNat else pure ()
  push vch

/-- `OP_ROT`: (x1 x2 x3 -- x2 x3 x1) -/
def opRot : Eval Unit := do
  need 3
  swap 3 2
  swap 2 1

/-- `OP_SWAP`: (x1 x2 -- x2 x1) -/
def opSwap : Eval Unit := do
  need 2
  swap 2 1

/-- `OP_TUCK`: (x1 x2 -- x2 x1 x2) -/
def opTuck : Eval Unit := do
  need 2
  insert 2 (← stacktop 1)

/-- `OP_SIZE`: (in -- in size) -/
def opSize : Eval Unit := do
  need 1
  push (CScript.getvch (← stacktop 1).length)

/-- `OP_EQUAL`, `OP_EQUALVERIFY`: (x1 x2 - bool) -/
def opEqual (fVerify : Bool) : Eval Unit := do
  need 2
  let fEqual := (← stacktop 2) == (← stacktop 1)
  popstack
  popstack
  pushBool fEqual
  verifyIf fVerify fEqual

/-- The number of a truth value. -/
def bnOf (fValue : Bool) : ℤ := if fValue then 1 else 0

/-- The inner switch of the operations on one number. -/
def numeric1 (opcode : UInt8) (bn : ℤ) : ℤ :=
  if opcode = OP_1ADD then bn + 1
  else if opcode = OP_1SUB then bn - 1
  else if opcode = OP_NEGATE then -bn
  else if opcode = OP_ABS then if bn < 0 then -bn else bn
  else if opcode = OP_NOT then bnOf (bn == 0)
  else bnOf (bn != 0)

/-- `OP_1ADD`, `OP_1SUB`, `OP_NEGATE`, `OP_ABS`, `OP_NOT`, `OP_0NOTEQUAL`: (in -- out) -/
def opNumeric1 (opcode : UInt8) : Eval Unit := do
  need 1
  let bn ← castToBigNum (← stacktop 1)
  popstack
  push (CScript.getvch (numeric1 opcode bn))

/-- The inner switch of the operations on two numbers. -/
def numeric2 (opcode : UInt8) (bn1 bn2 : ℤ) : ℤ :=
  if opcode = OP_ADD then bn1 + bn2
  else if opcode = OP_SUB then bn1 - bn2
  else if opcode = OP_BOOLAND then bnOf (bn1 != 0 && bn2 != 0)
  else if opcode = OP_BOOLOR then bnOf (bn1 != 0 || bn2 != 0)
  else if opcode = OP_NUMEQUAL then bnOf (bn1 == bn2)
  else if opcode = OP_NUMEQUALVERIFY then bnOf (bn1 == bn2)
  else if opcode = OP_NUMNOTEQUAL then bnOf (bn1 != bn2)
  else if opcode = OP_LESSTHAN then bnOf (decide (bn1 < bn2))
  else if opcode = OP_GREATERTHAN then bnOf (decide (bn1 > bn2))
  else if opcode = OP_LESSTHANOREQUAL then bnOf (decide (bn1 ≤ bn2))
  else if opcode = OP_GREATERTHANOREQUAL then bnOf (decide (bn1 ≥ bn2))
  else if opcode = OP_MIN then if bn1 < bn2 then bn1 else bn2
  else if bn1 > bn2 then bn1 else bn2

/-- `OP_ADD`, `OP_SUB`, `OP_BOOLAND` to `OP_MAX`: (x1 x2 -- out) -/
def opNumeric2 (opcode : UInt8) : Eval Unit := do
  need 2
  let bn1 ← castToBigNum (← stacktop 2)
  let bn2 ← castToBigNum (← stacktop 1)
  popstack
  popstack
  push (CScript.getvch (numeric2 opcode bn1 bn2))
  if opcode = OP_NUMEQUALVERIFY then
    if castToBool (← stacktop 1) then popstack else throw .fail
  else pure ()

/-- `OP_WITHIN`: (x min max -- out) -/
def opWithin : Eval Unit := do
  need 3
  let bn1 ← castToBigNum (← stacktop 3)
  let bn2 ← castToBigNum (← stacktop 2)
  let bn3 ← castToBigNum (← stacktop 1)
  popstack
  popstack
  popstack
  pushBool (decide (bn2 ≤ bn1) && decide (bn1 < bn3))

end Eval

namespace ScriptEnv

open Eval

def hash160 (env : ScriptEnv) (vch : Bytes) : BitVec 160 :=
  env.ripemd160 (serializeUInt256 (env.sha256 vch))

/-- `Hash`. -/
def hash256 (env : ScriptEnv) (vch : Bytes) : UInt256 :=
  env.sha256 (serializeUInt256 (env.sha256 vch))

/-- The digest of an opcode. -/
def digest (env : ScriptEnv) (opcode : UInt8) (vch : Bytes) : Bytes :=
  if opcode = OP_RIPEMD160 then leBytes 20 (env.ripemd160 vch).toNat
  else if opcode = OP_SHA1 then leBytes 20 (env.sha1 vch).toNat
  else if opcode = OP_SHA256 then serializeUInt256 (env.sha256 vch)
  else if opcode = OP_HASH160 then leBytes 20 (env.hash160 vch).toNat
  else serializeUInt256 (env.hash256 vch)

/-- `OP_RIPEMD160`, `OP_SHA1`, `OP_SHA256`, `OP_HASH160`, `OP_HASH256`: (in -- hash) -/
def opHash (env : ScriptEnv) (opcode : UInt8) : Eval Unit := do
  need 1
  let vch ← stacktop 1
  popstack
  push (env.digest opcode vch)

/-- A call of `CheckSig`. -/
def callCheckSig (env : ScriptEnv) (vchSig vchPubKey : Bytes) (scriptCode : CScript) :
    Eval Bool := do
  modify fun s => { s with nChecks := s.nChecks + 1 }
  return env.checkSig vchSig vchPubKey scriptCode

end ScriptEnv

end HyperStake
