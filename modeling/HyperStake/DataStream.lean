import HyperStake.Serialize
import HyperStake.Library.RewindQueue

/-!
# The buffer of a stream

`CDataStream` of `serialize.h`: a vector of bytes with a read position.  What has been read stays
in the vector until the stream is read to its end or compacted, so that `Rewind` can go back over
it, and an insertion at the front writes over it when there is room.

The stream is a queue of bytes that can be rewound (`ByteQueue`): any calls, in any order, give the
same answers and leave the same bytes unread (`run_refines`), as long as every call is one for which
the code and the queue agree (`Op.Meets`).  They differ in two ways.

* `Serialize` of a stream writes the whole vector, also what has been read already, where
  `operator+=` appends what is unread (`serializeInto_eq_append_iff`).
* The read position is an `unsigned int` and the length of a block an `int`, while the vector can
  grow beyond both (`pass_seen_iff`).
-/

namespace HyperStake.DataStream

/-- `std::ios::failbit`. -/
def failbit : Int16 := 4

/-- `std::ios::badbit`. -/
def badbit : Int16 := 1

/-- A stream.  The read position lies inside of the vector. -/
structure CDataStream where
  vch : Bytes
  nReadPos : UInt32
  state : Int16
  exceptmask : Int16
  pos_le : nReadPos.toNat ≤ vch.length

/-- The constructors from a range of bytes: `Init` throws on every failure. -/
def CDataStream.ofBytes (pch : Bytes) : CDataStream :=
  ⟨pch, 0, 0, badbit ||| failbit, Nat.zero_le _⟩

/-- What the `Unserialize` of a type does with a stream: it reads blocks, each as long as what was
read before says, and ends with an object or with an exception of its own. -/
inductive Unserializer (α : Type) where
  | object (a : α)
  | throws (what : String)
  | read (nSize : Int32) (next : Bytes → Unserializer α)

/-- What a call gives to its caller. -/
inductive Answer (α : Type) where
  | void
  | bytes (pch : Bytes)
  | truth (b : Bool)
  | object (a : α)
  /-- The bits of a stream's state. -/
  | bits (n : Int16)
  /-- An exception is thrown; from a stream, `std::ios_base::failure`. -/
  | failure (psz : String)
  deriving DecidableEq

/-- A call on a stream.  Positions are counted from `begin()`. -/
inductive Op (α : Type) where
  /-- `write`: `nSize` bytes from the memory at `pch`. -/
  | write (pch : Bytes) (nSize : Int32)
  | read (nSize : Int32)
  | ignore (nSize : Int32)
  /-- `operator<<` of an object whose `Serialize` writes these blocks. -/
  | shiftLeft (blocks : List Bytes)
  /-- `operator<<` of a stream. -/
  | shiftLeftStream (b : CDataStream)
  | shiftRight (t : Unserializer α)
  /-- `operator+=`. -/
  | append (b : CDataStream)
  | insertChar (it : ℕ) (x : UInt8)
  | insertFill (it n : ℕ) (x : UInt8)
  /-- The two overloads of `insert` for a range. -/
  | insertRange (it : ℕ) (range : Bytes)
  | erase (it : ℕ)
  | eraseRange (first last : ℕ)
  | rewind (n : ℕ)
  | compact
  | clear
  /-- `clear(short)`. -/
  | clearState (n : Int16)
  | exceptions (mask : Int16)

/-! ## The code -/

namespace CDataStream

variable {α : Type} (s : CDataStream)

/-- The bytes between `begin()` and `end()`. -/
def unread : Bytes := s.vch.drop s.nReadPos.toNat

def fail : Bool := s.state &&& (badbit ||| failbit) ≠ 0

/-- Empty the vector and start again at its front. -/
def clear : CDataStream := { s with vch := [], nReadPos := 0, pos_le := Nat.zero_le _ }

/-- Does `setstate` throw, once the bits are set? -/
def throwsOn (state exceptmask : Int16) : Bool := state &&& exceptmask ≠ 0

/-- The state with more bits set. -/
def withBits (bits : Int16) : CDataStream := { s with state := s.state ||| bits }

/-- What `read` and `ignore` do: step over `nSize` bytes, or fail with `psz`.  `none` is a failed
assertion. -/
def pass (nSize : Int32) (psz : String) (answer : Answer α) : Option (Answer α × CDataStream) :=
  let nReadPosNext := s.nReadPos + nSize.toUInt32
  if nSize < 0 then none
  else if h : nReadPosNext.toNat ≥ s.vch.length then
    if nReadPosNext.toNat > s.vch.length then
      let s' := s.withBits failbit
      if throwsOn s'.state s'.exceptmask then some (.failure psz, s') else some (answer, s'.clear)
    else some (answer, s.clear)
  else some (answer, { s with nReadPos := nReadPosNext, pos_le := (not_le.mp h).le })

/-- The memory at `pch` after a read: the bytes that are there, filled up with zeros. -/
def filled (unread : Bytes) (nSize : ℕ) : Bytes :=
  unread.take nSize ++ List.replicate (nSize - unread.length) 0

/-- `read`.  A position that has wrapped around makes it copy from beyond the end of the vector. -/
def read (nSize : Int32) : Option (Answer α × CDataStream) :=
  if (s.nReadPos + nSize.toUInt32).toNat < s.vch.length ∧ s.unread.length < nSize.toNatClampNeg then
    none
  else
    s.pass nSize "CDataStream::read() : end of data" (.bytes (filled s.unread nSize.toNatClampNeg))

def ignore (nSize : Int32) : Option (Answer α × CDataStream) :=
  s.pass nSize "CDataStream::ignore() : end of data" .void

/-- `vch.insert(vch.end(), ...)`. -/
def pushBack (pch : Bytes) : CDataStream :=
  { s with
    vch := s.vch ++ pch
    pos_le := s.pos_le.trans (by rw [List.length_append]; exact Nat.le_add_right _ _) }

def write (pch : Bytes) (nSize : Int32) : Option CDataStream :=
  if nSize < 0 ∨ pch.length < nSize.toNatClampNeg then none
  else some (s.pushBack (pch.take nSize.toNatClampNeg))

/-- The `write` of a block by its own `size()`, which becomes an `int`. -/
def writeBlock (pch : Bytes) : Option CDataStream := s.write pch (Int32.ofNat pch.length)

/-- `Serialize` of an object: its blocks, one after the other. -/
def writeBlocks : List Bytes → CDataStream → Option CDataStream
  | [], s => some s
  | pch :: rest, s => (s.writeBlock pch).bind (writeBlocks rest)

/-- `Serialize` of the stream itself, to another one. -/
def serializeInto (os : CDataStream) : Option CDataStream :=
  if s.vch.isEmpty then some os else os.writeBlock s.vch

/-- `operator+=`. -/
def append (b : CDataStream) : CDataStream := s.pushBack b.unread

/-- `Unserialize` of an object. -/
def unserialize : Unserializer α → CDataStream → Option (Answer α × CDataStream)
  | .object a, s => some (.object a, s)
  | .throws what, s => some (.failure what, s)
  | .read nSize next, s =>
    match s.read nSize with
    | some (.bytes pch, s') => unserialize (next pch) s'
    | answer => answer

/-- `vch.insert` at a position that is not before `begin()`. -/
def insertAt (it : ℕ) (xs : Bytes) : Option CDataStream :=
  if h : s.nReadPos.toNat + it ≤ s.vch.length then
    some { s with
      vch := s.vch.take (s.nReadPos.toNat + it) ++ xs ++ s.vch.drop (s.nReadPos.toNat + it)
      pos_le := by
        rw [List.length_append, List.length_append, List.length_take_of_le h]
        omega }
  else none

/-- `insert` of a range: at the front it goes into the room that has been read, if it fits. -/
def insertRange (it : ℕ) (range : Bytes) : Option CDataStream :=
  if it = 0 ∧ UInt32.ofNat range.length ≤ s.nReadPos then
    let nReadPos := s.nReadPos - UInt32.ofNat range.length
    if h : nReadPos.toNat + range.length ≤ s.vch.length then
      some { s with
        vch := s.vch.take nReadPos.toNat ++ range ++ s.vch.drop (nReadPos.toNat + range.length)
        nReadPos := nReadPos
        pos_le := by
          rw [List.length_append, List.length_append,
            List.length_take_of_le ((Nat.le_add_right _ _).trans h)]
          omega }
    else none
  else s.insertAt it range

/-- `vch.erase` of a part that is not before `begin()`. -/
def eraseFrom (first last : ℕ) : Option CDataStream :=
  if h : first ≤ last ∧ s.nReadPos.toNat + last ≤ s.vch.length then
    some { s with
      vch := s.vch.take (s.nReadPos.toNat + first) ++ s.vch.drop (s.nReadPos.toNat + last)
      pos_le := by
        rw [List.length_append, List.length_take_of_le (by omega)]
        omega }
  else none

/-- `erase` of one byte: at the front only the read position moves. -/
def erase (it : ℕ) : Option CDataStream :=
  if it = 0 then
    if h : (s.nReadPos + 1).toNat ≥ s.vch.length then some s.clear
    else some { s with nReadPos := s.nReadPos + 1, pos_le := (not_le.mp h).le }
  else s.eraseFrom it (it + 1)

/-- `erase` of a range. -/
def eraseRange (first last : ℕ) : Option CDataStream :=
  if first = 0 then
    if last = s.unread.length then some s.clear
    else if h : last < s.unread.length then
      some { s with
        nReadPos := UInt32.ofNat (s.nReadPos.toNat + last)
        pos_le := by
          rw [unread, List.length_drop] at h
          rw [UInt32.toNat_ofNat']
          exact (Nat.mod_le _ _).trans (by omega) }
    else none
  else s.eraseFrom first last

def compact : CDataStream :=
  { s with vch := s.unread, nReadPos := 0, pos_le := Nat.zero_le _ }

def rewind (n : ℕ) : Bool × CDataStream :=
  if h : n > s.nReadPos.toNat then (false, s)
  else (true, { s with
    nReadPos := UInt32.ofNat (s.nReadPos.toNat - n)
    pos_le := by
      rw [UInt32.toNat_ofNat']
      exact (Nat.mod_le _ _).trans ((Nat.sub_le _ _).trans s.pos_le) })

/-- `exceptions(short)`: with the new mask, the bits that are set may throw at once. -/
def exceptions (mask : Int16) : Answer α × CDataStream :=
  let s' := { s with exceptmask := mask }
  if throwsOn s'.state mask then (.failure "CDataStream", s') else (.bits s.exceptmask, s')

/-- A call without an answer. -/
def quiet (r : Option CDataStream) : Option (Answer α × CDataStream) := r.map fun s => (.void, s)

/-- One call. -/
def step : Op α → Option (Answer α × CDataStream)
  | .write pch nSize => quiet (s.write pch nSize)
  | .read nSize => s.read nSize
  | .ignore nSize => s.ignore nSize
  | .shiftLeft blocks => quiet (writeBlocks blocks s)
  | .shiftLeftStream b => quiet (b.serializeInto s)
  | .shiftRight t => unserialize t s
  | .append b => some (.void, s.append b)
  | .insertChar it x => quiet (s.insertAt it [x])
  | .insertFill it n x => quiet (s.insertAt it (List.replicate n x))
  | .insertRange it range => quiet (s.insertRange it range)
  | .erase it => quiet (s.erase it)
  | .eraseRange first last => quiet (s.eraseRange first last)
  | .rewind n => some (.truth (s.rewind n).1, (s.rewind n).2)
  | .compact => some (.void, s.compact)
  | .clear => some (.void, s.clear)
  | .clearState n => some (.void, { s with state := n })
  | .exceptions mask => some (s.exceptions mask)

/-- Calls one after the other, with their answers. -/
def run : List (Op α) → CDataStream → Option (List (Answer α) × CDataStream)
  | [], s => some ([], s)
  | op :: ops, s =>
    (s.step op).bind fun r => (run ops r.2).map fun r' => (r.1 :: r'.1, r'.2)

end CDataStream

/-! ## The queue -/

/-- A queue of bytes that can be rewound, with the error bits of a stream. -/
structure ByteQueue where
  bytes : RewindQueue UInt8
  state : Int16
  exceptmask : Int16

namespace ByteQueue

variable {α : Type} (q : ByteQueue)

/-- Change the bytes. -/
def on (f : RewindQueue UInt8 → RewindQueue UInt8) : ByteQueue := { q with bytes := f q.bytes }

/-- Take the next `nSize` bytes.  When there are fewer, the failure is thrown and no byte is taken;
or, when the failure is masked, the state says so and the queue is used up. -/
def pass (nSize : Int32) (psz : String) (answer : Answer α) : Option (Answer α × ByteQueue) :=
  if nSize < 0 then none
  else if nSize.toNatClampNeg ≤ q.bytes.unread.length then
    some (answer, q.on (RewindQueue.advance nSize.toNatClampNeg))
  else
    let q' := { q with state := q.state ||| failbit }
    if CDataStream.throwsOn q'.state q'.exceptmask then some (.failure psz, q')
    else some (answer, q'.on fun _ => RewindQueue.empty)

/-- Read the next bytes. -/
def read (nSize : Int32) : Option (Answer α × ByteQueue) :=
  q.pass nSize "CDataStream::read() : end of data"
    (.bytes (CDataStream.filled q.bytes.unread nSize.toNatClampNeg))

/-- Drop the next bytes. -/
def ignore (nSize : Int32) : Option (Answer α × ByteQueue) :=
  q.pass nSize "CDataStream::ignore() : end of data" .void

/-- Put the bytes of a memory block at the end, as many as asked for. -/
def write (pch : Bytes) (nSize : Int32) : Option ByteQueue :=
  if nSize < 0 ∨ pch.length < nSize.toNatClampNeg then none
  else some (q.on (RewindQueue.put (pch.take nSize.toNatClampNeg)))

/-- Put bytes in front of the unread byte with index `it`, if there are so many. -/
def insertAt (it : ℕ) (xs : Bytes) : Option ByteQueue :=
  if it ≤ q.bytes.unread.length then some (q.on (RewindQueue.insertAt it xs)) else none

/-- Put a range in front of an unread byte; at the front, kept bytes make room for it when there are
enough of them. -/
def insertRange (it : ℕ) (range : Bytes) : Option ByteQueue :=
  if it = 0 ∧ range.length ≤ q.bytes.kept.length then
    some (q.on (RewindQueue.insertInRoom range))
  else q.insertAt it range

/-- Take one unread byte out; the first one is taken as a read takes it. -/
def erase (it : ℕ) : Option ByteQueue :=
  if it = 0 then some (q.on (RewindQueue.advance 1))
  else if it < q.bytes.unread.length then some (q.on (RewindQueue.eraseRange it (it + 1)))
  else none

/-- Take a part of the unread bytes out; bytes at the front are taken as a read takes them. -/
def eraseRange (first last : ℕ) : Option ByteQueue :=
  if ¬ (first ≤ last ∧ last ≤ q.bytes.unread.length) then none
  else if first = 0 then some (q.on (RewindQueue.advance last))
  else some (q.on (RewindQueue.eraseRange first last))

/-- Put bytes that were taken back, if they are still kept. -/
def rewind (n : ℕ) : Bool × ByteQueue :=
  if n ≤ q.bytes.kept.length then (true, q.on (RewindQueue.rewind n)) else (false, q)

/-- Read an object. -/
def unserialize : Unserializer α → ByteQueue → Option (Answer α × ByteQueue)
  | .object a, q => some (.object a, q)
  | .throws what, q => some (.failure what, q)
  | .read nSize next, q =>
    match q.read nSize with
    | some (.bytes pch, q') => unserialize (next pch) q'
    | answer => answer

/-- A call without an answer. -/
def quiet (r : Option ByteQueue) : Option (Answer α × ByteQueue) := r.map fun q => (.void, q)

/-- What a call does to the queue. -/
def step : Op α → Option (Answer α × ByteQueue)
  | .write pch nSize => quiet (q.write pch nSize)
  | .read nSize => q.read nSize
  | .ignore nSize => q.ignore nSize
  | .shiftLeft blocks => some (.void, q.on (RewindQueue.put blocks.flatten))
  | .shiftLeftStream b => some (.void, q.on (RewindQueue.put b.unread))
  | .shiftRight t => unserialize t q
  | .append b => some (.void, q.on (RewindQueue.put b.unread))
  | .insertChar it x => quiet (q.insertAt it [x])
  | .insertFill it n x => quiet (q.insertAt it (List.replicate n x))
  | .insertRange it range => quiet (q.insertRange it range)
  | .erase it => quiet (q.erase it)
  | .eraseRange first last => quiet (q.eraseRange first last)
  | .rewind n => some (.truth (q.rewind n).1, (q.rewind n).2)
  | .compact => some (.void, q.on RewindQueue.forget)
  | .clear => some (.void, q.on fun _ => RewindQueue.empty)
  | .clearState n => some (.void, { q with state := n })
  | .exceptions mask =>
    let q' := { q with exceptmask := mask }
    some (if CDataStream.throwsOn q'.state mask then (.failure "CDataStream", q')
      else (.bits q.exceptmask, q'))

/-- Calls one after the other, with their answers. -/
def run : List (Op α) → ByteQueue → Option (List (Answer α) × ByteQueue)
  | [], q => some ([], q)
  | op :: ops, q =>
    (q.step op).bind fun r => (run ops r.2).map fun r' => (r.1 :: r'.1, r'.2)

/-- Stepping over bytes leaves no more unread than there was. -/
lemma length_unread_pass_le {q : ByteQueue} {nSize : Int32} {psz : String} {answer : Answer α}
    {r : Answer α × ByteQueue} (h : q.pass nSize psz answer = some r) :
    r.2.bytes.unread.length ≤ q.bytes.unread.length := by
  rw [ByteQueue.pass] at h
  split at h
  · cases h
  split at h
  · cases h
    simp only [ByteQueue.on, RewindQueue.advance_unread, List.length_drop, Nat.sub_le]
  dsimp only at h
  split at h
  · cases h
    exact le_refl _
  · cases h
    exact Nat.zero_le _

end ByteQueue

/-- The queue that a stream stands for. -/
def CDataStream.toQueue (s : CDataStream) : ByteQueue :=
  ⟨RewindQueue.ofBuffer s.vch s.nReadPos.toNat, s.state, s.exceptmask⟩

/-- The outcome of a call, seen on the queue. -/
def CDataStream.seen {β : Type} (r : β × CDataStream) : β × ByteQueue := (r.1, r.2.toQueue)

/-! ## Where the code and the queue agree -/

/-- Every block that is read ends where an `unsigned int` can say so. -/
def Unserializer.Meets {α : Type} : Unserializer α → CDataStream → Prop
  | .object _, _ => True
  | .throws _, _ => True
  | .read nSize next, s => s.nReadPos.toNat + nSize.toNatClampNeg < 2 ^ 32 ∧
      ∀ pch s', s.read nSize = some ((.bytes pch : Answer α), s') → (next pch).Meets s'

/-- The call is one for which the code and the queue agree. -/
def Op.Meets {α : Type} (s : CDataStream) : Op α → Prop
  | .read nSize => s.nReadPos.toNat + nSize.toNatClampNeg < 2 ^ 32
  | .ignore nSize => s.nReadPos.toNat + nSize.toNatClampNeg < 2 ^ 32
  | .shiftLeft blocks => ∀ pch ∈ blocks, pch.length < 2 ^ 31
  | .shiftLeftStream b => b.nReadPos = 0 ∧ b.vch.length < 2 ^ 31
  | .shiftRight t => t.Meets s
  | .insertRange it range =>
    it = 0 → range.length < 2 ^ 32 ∨ s.nReadPos.toNat < range.length % 2 ^ 32
  | .erase it => it = 0 → s.nReadPos.toNat + 1 < 2 ^ 32
  | .eraseRange first last =>
    first = 0 → last < s.unread.length → s.nReadPos.toNat + last < 2 ^ 32
  | _ => True

/-- Every call of a sequence is such a call. -/
def AllMeet {α : Type} : List (Op α) → CDataStream → Prop
  | [], _ => True
  | op :: ops, s => op.Meets s ∧ ∀ r, s.step op = some r → AllMeet ops r.2

namespace CDataStream

variable {α : Type} {s : CDataStream}

variable {nSize : Int32} {first last : ℕ}

/-- The end of a block, when an `unsigned int` can say it. -/
lemma toNat_add_toUInt32 {nReadPos : UInt32} (h0 : ¬ nSize < 0)
    (h : nReadPos.toNat + nSize.toNatClampNeg < 2 ^ 32) :
    (nReadPos + nSize.toUInt32).toNat = nReadPos.toNat + nSize.toNatClampNeg := by
  rw [UInt32.toNat_add, Int32.toNat_toUInt32_of_le (Int32.not_lt.mp h0), Nat.mod_eq_of_lt h]

lemma unread_length (s : CDataStream) : s.unread.length = s.vch.length - s.nReadPos.toNat :=
  List.length_drop

lemma toQueue_clear (s : CDataStream) :
    s.clear.toQueue = s.toQueue.on fun _ => RewindQueue.empty := by
  simp only [toQueue, clear, RewindQueue.ofBuffer_nil, ByteQueue.on]

/-- A read position further on takes bytes from the queue. -/
lemma toQueue_advance {n : ℕ} {pos : UInt32} (hpos : pos.toNat = s.nReadPos.toNat + n)
    (h : pos.toNat < s.vch.length) :
    toQueue { s with nReadPos := pos, pos_le := h.le }
      = s.toQueue.on (RewindQueue.advance n) := by
  have hlen : n < (s.vch.drop s.nReadPos.toNat).length := by
    rw [List.length_drop]
    omega
  simp only [toQueue, ByteQueue.on, RewindQueue.advance, RewindQueue.ofBuffer_unread, hlen,
    if_true, hpos, RewindQueue.ofBuffer_add]

/-- A stream that is read to its end is empty. -/
lemma toQueue_advance_all {n : ℕ} (h : s.unread.length ≤ n) :
    s.clear.toQueue = s.toQueue.on (RewindQueue.advance n) := by
  have hlen : ¬ n < (s.vch.drop s.nReadPos.toNat).length := not_lt.mpr h
  rw [toQueue_clear]
  simp only [toQueue, ByteQueue.on, RewindQueue.advance, RewindQueue.ofBuffer_unread, hlen,
    if_false]

section

variable (h : s.nReadPos.toNat + nSize.toNatClampNeg < 2 ^ 32)

include h

/-- Stepping over bytes takes them from the queue. -/
lemma pass_seen (psz : String)
    (answer : Answer α) : (s.pass nSize psz answer).map seen = s.toQueue.pass nSize psz answer := by
  by_cases h0 : nSize < 0
  · simp only [pass, ByteQueue.pass, h0, if_true, Option.map_none]
  have hnext := toNat_add_toUInt32 h0 h
  have hlen := s.unread_length
  have hle := s.pos_le
  have hqueue : s.toQueue.bytes.unread = s.unread := rfl
  rw [pass, ByteQueue.pass, if_neg h0, if_neg h0, hqueue]
  by_cases hend : (s.nReadPos + nSize.toUInt32).toNat ≥ s.vch.length
  · rw [dif_pos hend]
    by_cases hbeyond : (s.nReadPos + nSize.toUInt32).toNat > s.vch.length
    · rw [if_pos hbeyond, if_neg (by omega : ¬ nSize.toNatClampNeg ≤ s.unread.length)]
      dsimp only [withBits, toQueue]
      split
      · rfl
      · simp only [Option.map_some, seen, toQueue_clear]
        rfl
    · rw [if_neg hbeyond, if_pos (by omega : nSize.toNatClampNeg ≤ s.unread.length)]
      rw [Option.map_some, seen, toQueue_advance_all (by omega : _ ≤ nSize.toNatClampNeg)]
  · rw [dif_neg hend, if_pos (by omega : nSize.toNatClampNeg ≤ s.unread.length), Option.map_some,
      seen, toQueue_advance hnext (not_le.mp hend)]

/-- `read` takes bytes from the queue. -/
lemma read_seen :
    (s.read nSize : Option (Answer α × CDataStream)).map seen = s.toQueue.read nSize := by
  have hcopy : ¬ ((s.nReadPos + nSize.toUInt32).toNat < s.vch.length ∧
      s.unread.length < nSize.toNatClampNeg) := by
    rintro ⟨hpos, hlen⟩
    have h0 : ¬ nSize < 0 := fun hneg => by
      rw [Int32.lt_iff_toInt_lt] at hneg
      rw [Int32.toNatClampNeg, Int.toNat_of_nonpos hneg.le] at hlen
      exact Nat.not_lt_zero _ hlen
    rw [toNat_add_toUInt32 h0 h] at hpos
    rw [unread_length] at hlen
    omega
  rw [read, if_neg hcopy, pass_seen h]
  rfl

/-- `ignore` drops bytes of the queue. -/
lemma ignore_seen :
    (s.ignore nSize : Option (Answer α × CDataStream)).map seen = s.toQueue.ignore nSize :=
  pass_seen h _ _

end

/-- Appending to the vector puts bytes at the end of the queue. -/
lemma toQueue_pushBack (pch : Bytes) :
    (s.pushBack pch).toQueue = s.toQueue.on (RewindQueue.put pch) := by
  simp only [toQueue, pushBack, ByteQueue.on, RewindQueue.ofBuffer_append s.pos_le]

/-- `write` puts bytes at the end of the queue. -/
lemma write_seen (pch : Bytes) (nSize : Int32) :
    (s.write pch nSize).map toQueue = s.toQueue.write pch nSize := by
  rw [write, ByteQueue.write]
  split
  · rfl
  · rw [Option.map_some, toQueue_pushBack]

/-- A block whose length is an `int` is written whole. -/
lemma writeBlock_eq {pch : Bytes} (h : pch.length < 2 ^ 31) :
    s.writeBlock pch = some (s.pushBack pch) := by
  have hnat := Int32.toNatClampNeg_ofNat_of_lt h
  have h0 : ¬ Int32.ofNat pch.length < 0 := by
    rw [Int32.lt_iff_toInt_lt, Int32.toInt_ofNat_of_lt h]
    exact not_lt.mpr (Int.natCast_nonneg _)
  rw [writeBlock, write, if_neg (by rw [hnat]; exact not_or.mpr ⟨h0, lt_irrefl _⟩), hnat,
    List.take_length]

/-- The blocks of an object are put at the end of the queue, one after the other. -/
lemma writeBlocks_eq {blocks : List Bytes} (h : ∀ pch ∈ blocks, pch.length < 2 ^ 31) :
    (writeBlocks blocks s).map toQueue
      = some (s.toQueue.on (RewindQueue.put blocks.flatten)) := by
  induction blocks generalizing s with
  | nil =>
    simp only [writeBlocks, Option.map_some, List.flatten_nil, ByteQueue.on, RewindQueue.put,
      List.append_nil]
  | cons pch rest ih =>
    rw [writeBlocks, writeBlock_eq (h pch List.mem_cons_self), Option.bind_some,
      ih fun c hc => h c (List.mem_cons_of_mem _ hc), toQueue_pushBack]
    simp only [ByteQueue.on, RewindQueue.put, List.flatten_cons, List.append_assoc]

/-- A stream that has not been read from is written to another one as `operator+=` appends it. -/
lemma serializeInto_eq {b : CDataStream} (hpos : b.nReadPos = 0) (h : b.vch.length < 2 ^ 31) :
    b.serializeInto s = some (s.append b) := by
  have hunread : b.unread = b.vch := by
    rw [unread, hpos]
    rfl
  rw [serializeInto, append, hunread]
  split
  · next hempty =>
    rw [List.isEmpty_iff.mp hempty]
    simp only [pushBack, List.append_nil]
  · exact writeBlock_eq h

/-- `operator+=` puts the unread bytes of the other stream at the end of the queue. -/
lemma toQueue_append (b : CDataStream) :
    (s.append b).toQueue = s.toQueue.on (RewindQueue.put b.unread) := toQueue_pushBack b.unread

/-- Inserting into the vector puts bytes in front of an unread one. -/
lemma insertAt_seen (it : ℕ) (xs : Bytes) :
    (s.insertAt it xs).map toQueue = s.toQueue.insertAt it xs := by
  have hlen := s.unread_length
  have hle := s.pos_le
  have hqueue : s.toQueue.bytes.unread = s.unread := rfl
  rw [insertAt, ByteQueue.insertAt, hqueue]
  by_cases h : s.nReadPos.toNat + it ≤ s.vch.length
  · rw [dif_pos h, if_pos (by omega : it ≤ s.unread.length), Option.map_some]
    simp only [toQueue, ByteQueue.on, RewindQueue.ofBuffer_insert h]
  · rw [dif_neg h, if_neg (by omega : ¬ it ≤ s.unread.length), Option.map_none]

/-- `insert` of a range: writing over what has been read uses up kept bytes. -/
lemma insertRange_seen {it : ℕ} {range : Bytes}
    (h : it = 0 → range.length < 2 ^ 32 ∨ s.nReadPos.toNat < range.length % 2 ^ 32) :
    (s.insertRange it range).map toQueue = s.toQueue.insertRange it range := by
  have hle := s.pos_le
  have hkept : s.toQueue.bytes.kept.length = s.nReadPos.toNat := List.length_take_of_le hle
  have hlt := s.nReadPos.toNat_lt
  rw [insertRange, ByteQueue.insertRange, hkept]
  by_cases hroom : it = 0 ∧ range.length ≤ s.nReadPos.toNat
  · have hmod : range.length % 2 ^ 32 = range.length := Nat.mod_eq_of_lt (by omega)
    have hofNat : UInt32.ofNat range.length ≤ s.nReadPos := by
      rw [UInt32.le_iff_toNat_le, UInt32.toNat_ofNat', hmod]
      exact hroom.2
    have hpos : (s.nReadPos - UInt32.ofNat range.length).toNat
        = s.nReadPos.toNat - range.length := by
      rw [UInt32.toNat_sub_of_le _ _ hofNat, UInt32.toNat_ofNat', hmod]
    have hend : s.nReadPos.toNat - range.length + range.length = s.nReadPos.toNat :=
      Nat.sub_add_cancel hroom.2
    rw [if_pos ⟨hroom.1, hofNat⟩, if_pos hroom]
    dsimp only
    rw [dif_pos (by rw [hpos, hend]; exact hle), Option.map_some]
    simp only [toQueue, ByteQueue.on, hpos, hend, RewindQueue.ofBuffer_overwrite hle]
  · have hslow : ¬ (it = 0 ∧ UInt32.ofNat range.length ≤ s.nReadPos) := by
      rintro ⟨hit, hmod⟩
      rw [UInt32.le_iff_toNat_le, UInt32.toNat_ofNat'] at hmod
      rcases h hit with hsmall | hlarge
      · exact hroom ⟨hit, by rwa [Nat.mod_eq_of_lt hsmall] at hmod⟩
      · omega
    rw [if_neg hslow, if_neg hroom, insertAt_seen]

/-- Erasing from the vector takes unread bytes out. -/
lemma eraseFrom_seen (h : first ≤ last) (hlast : last ≤ s.unread.length) :
    (s.eraseFrom first last).map toQueue
      = some (s.toQueue.on (RewindQueue.eraseRange first last)) := by
  have hlen := s.unread_length
  have hle := s.pos_le
  rw [eraseFrom, dif_pos ⟨h, by omega⟩, Option.map_some]
  simp only [toQueue, ByteQueue.on,
    RewindQueue.ofBuffer_erase (by omega : s.nReadPos.toNat + first ≤ s.vch.length)]

/-- A part that reaches beyond the unread bytes is not erased. -/
lemma eraseFrom_eq_none (h : ¬ (first ≤ last ∧ last ≤ s.unread.length)) :
    s.eraseFrom first last = none := by
  have hlen := s.unread_length
  have hle := s.pos_le
  rw [eraseFrom, dif_neg (by omega)]

/-- `erase` of one byte. -/
lemma erase_seen {it : ℕ} (h : it = 0 → s.nReadPos.toNat + 1 < 2 ^ 32) :
    (s.erase it).map toQueue = s.toQueue.erase it := by
  have hlen := s.unread_length
  have hle := s.pos_le
  have hqueue : s.toQueue.bytes.unread = s.unread := rfl
  rw [erase, ByteQueue.erase, hqueue]
  by_cases hit : it = 0
  · have hpos : (s.nReadPos + 1).toNat = s.nReadPos.toNat + 1 := by
      rw [UInt32.toNat_add]
      exact Nat.mod_eq_of_lt (h hit)
    rw [if_pos hit, if_pos hit]
    by_cases hend : (s.nReadPos + 1).toNat ≥ s.vch.length
    · rw [dif_pos hend, Option.map_some, toQueue_advance_all (by omega : _ ≤ 1)]
    · rw [dif_neg hend, Option.map_some, toQueue_advance hpos (not_le.mp hend)]
  · rw [if_neg hit, if_neg hit]
    by_cases hin : it < s.unread.length
    · rw [if_pos hin, eraseFrom_seen (Nat.le_succ it) hin]
    · rw [if_neg hin, eraseFrom_eq_none (by omega), Option.map_none]

/-- `erase` of a range. -/
lemma eraseRange_seen (h : first = 0 → last < s.unread.length → s.nReadPos.toNat + last < 2 ^ 32) :
    (s.eraseRange first last).map toQueue = s.toQueue.eraseRange first last := by
  have hlen := s.unread_length
  have hle := s.pos_le
  have hqueue : s.toQueue.bytes.unread = s.unread := rfl
  rw [eraseRange, ByteQueue.eraseRange, hqueue]
  by_cases hfirst : first = 0
  · rw [if_pos hfirst]
    rcases Nat.lt_trichotomy last s.unread.length with hlt | heq | hgt
    · have hpos : (UInt32.ofNat (s.nReadPos.toNat + last)).toNat = s.nReadPos.toNat + last := by
        rw [UInt32.toNat_ofNat', Nat.mod_eq_of_lt (h hfirst hlt)]
      rw [if_neg hlt.ne, dif_pos hlt, if_neg (by omega), if_pos hfirst, Option.map_some,
        toQueue_advance hpos (by omega)]
    · rw [if_pos heq, if_neg (by omega), if_pos hfirst, Option.map_some,
        toQueue_advance_all heq.ge]
    · rw [if_neg hgt.ne', dif_neg (by omega), if_pos (by omega), Option.map_none]
  · rw [if_neg hfirst]
    by_cases hin : first ≤ last ∧ last ≤ s.unread.length
    · rw [eraseFrom_seen hin.1 hin.2, if_neg (not_not.mpr hin), if_neg hfirst]
    · rw [eraseFrom_eq_none hin, if_pos hin, Option.map_none]

/-- `Compact` keeps nothing. -/
lemma toQueue_compact : s.compact.toQueue = s.toQueue.on RewindQueue.forget := by
  simp only [toQueue, compact, unread, ByteQueue.on, ← RewindQueue.ofBuffer_drop]
  rfl

/-- `Rewind` puts kept bytes back. -/
lemma rewind_seen (n : ℕ) : seen (s.rewind n) = s.toQueue.rewind n := by
  have hle := s.pos_le
  have hlt := s.nReadPos.toNat_lt
  have hkept : s.toQueue.bytes.kept.length = s.nReadPos.toNat := List.length_take_of_le hle
  rw [rewind, ByteQueue.rewind, hkept]
  by_cases h : n > s.nReadPos.toNat
  · rw [dif_pos h, if_neg (by omega), seen]
  · have hpos : (UInt32.ofNat (s.nReadPos.toNat - n)).toNat = s.nReadPos.toNat - n := by
      rw [UInt32.toNat_ofNat', Nat.mod_eq_of_lt (by omega)]
    rw [dif_neg h, if_pos (by omega), seen]
    simp only [toQueue, ByteQueue.on, hpos, RewindQueue.ofBuffer_sub hle]

/-- Reading an object takes from the queue what its reads take. -/
lemma unserialize_seen {t : Unserializer α} (h : t.Meets s) :
    (unserialize t s).map seen = s.toQueue.unserialize t := by
  -- by induction on the reads that are still to come
  induction t generalizing s with
  | object a => rfl
  | throws what => rfl
  | read nSize next ih =>
    have hread : (s.read nSize : Option (Answer α × CDataStream)).map seen = s.toQueue.read nSize :=
      read_seen h.1
    rw [unserialize, ByteQueue.unserialize, ← hread]
    rcases hs : (s.read nSize : Option (Answer α × CDataStream)) with _ | ⟨answer, s'⟩
    · rfl
    · rw [Option.map_some, seen]
      match answer with
      | .bytes pch => exact ih pch (h.2 pch s' hs)
      | .void | .truth _ | .object _ | .bits _ | .failure _ => rfl

/-- An answerless call is seen through its stream. -/
lemma quiet_seen (r : Option CDataStream) :
    (quiet r : Option (Answer α × CDataStream)).map seen = ByteQueue.quiet (r.map toQueue) := by
  rcases r with _ | s'
  · rfl
  · rfl

/-- A call gives the answer of the queue and changes it as the queue is changed. -/
lemma step_seen {op : Op α} (h : op.Meets s) : (s.step op).map seen = s.toQueue.step op := by
  match op with
  | .write pch nSize => rw [step, quiet_seen, write_seen]; rfl
  | .read nSize => exact read_seen h
  | .ignore nSize => exact ignore_seen h
  | .shiftLeft blocks => rw [step, quiet_seen, writeBlocks_eq h]; rfl
  | .shiftLeftStream b =>
    rw [step, quiet_seen, serializeInto_eq h.1 h.2, Option.map_some, toQueue_append]
    rfl
  | .shiftRight t => exact unserialize_seen h
  | .append b => rw [step, Option.map_some, seen, toQueue_append]; rfl
  | .insertChar it x => rw [step, quiet_seen, insertAt_seen]; rfl
  | .insertFill it n x => rw [step, quiet_seen, insertAt_seen]; rfl
  | .insertRange it range => rw [step, quiet_seen, insertRange_seen h]; rfl
  | .erase it => rw [step, quiet_seen, erase_seen h]; rfl
  | .eraseRange first last => rw [step, quiet_seen, eraseRange_seen h]; rfl
  | .rewind n => rw [step, Option.map_some, ByteQueue.step, ← rewind_seen]; rfl
  | .compact => rw [step, Option.map_some, seen, toQueue_compact]; rfl
  | .clear => rw [step, Option.map_some, seen, toQueue_clear]; rfl
  | .clearState n => rfl
  | .exceptions mask =>
    rw [step, ByteQueue.step, exceptions]
    by_cases hthrow : throwsOn s.state mask = true
    · simp only [toQueue, hthrow, if_true, Option.map_some, seen]
    · simp only [toQueue, hthrow, Option.map_some, seen]
      rfl

/-- Any calls give the answers of the queue and leave the stream with the bytes of the queue. -/
lemma run_seen {ops : List (Op α)} (h : AllMeet ops s) :
    (run ops s).map seen = s.toQueue.run ops := by
  induction ops generalizing s with
  | nil => rfl
  | cons op ops ih =>
    obtain ⟨hop, hrest⟩ := h
    rw [run, ByteQueue.run, ← step_seen hop]
    rcases hs : s.step op with _ | ⟨answer, s'⟩
    · rfl
    · have hs' := ih (hrest _ hs)
      rw [Option.map_some, seen, Option.bind_some, Option.bind_some, ← hs']
      rcases run ops s' with _ | r
      · rfl
      · rfl

/-- Reading more than there is: either the failure is thrown and the stream is as it was, or the
state says so and the stream is at its end. -/
def ReportsEndOfData (s : CDataStream) : Prop :=
  ∀ nSize : Int32, s.nReadPos.toNat + nSize.toNatClampNeg < 2 ^ 32 →
    s.unread.length < nSize.toNatClampNeg →
    ∃ r : Answer Unit × CDataStream, s.read nSize = some r ∧
      (r.1 = .failure "CDataStream::read() : end of data" ∧ r.2.toQueue.bytes = s.toQueue.bytes ∨
        r.2.fail = true ∧ r.2.unread = [])

/-- With the bit of a failure, the state is one of failure. -/
lemma fail_withBits (s : CDataStream) : (s.withBits failbit).fail = true := by
  have hne : (s.state ||| failbit) &&& (badbit ||| failbit) ≠ 0 := by
    intro h
    have hbit := congrArg (fun x : Int16 => x.toBitVec.getLsbD 2) h
    simp [failbit, badbit] at hbit
  exact decide_eq_true hne

lemma reportsEndOfData (s : CDataStream) : ReportsEndOfData s := by
  intro nSize hwrap hshort
  have h0 : ¬ nSize < 0 := fun hneg => by
    rw [Int32.lt_iff_toInt_lt] at hneg
    rw [Int32.toNatClampNeg, Int.toNat_of_nonpos hneg.le] at hshort
    exact Nat.not_lt_zero _ hshort
  have hlen := s.unread_length
  have hbeyond : (s.nReadPos + nSize.toUInt32).toNat > s.vch.length := by
    rw [toNat_add_toUInt32 h0 hwrap]
    omega
  rw [read, if_neg (by omega), pass]
  dsimp only
  rw [if_neg h0, dif_pos hbeyond.le, if_pos hbeyond]
  split
  · exact ⟨_, rfl, Or.inl ⟨rfl, rfl⟩⟩
  · exact ⟨_, rfl, Or.inr ⟨s.fail_withBits, rfl⟩⟩

/-- A stream that is only used in ways for which the code and the queue agree behaves as the queue,
and is always left so that a read beyond the end is reported. -/
theorem run_refines {ops : List (Op α)} {s : CDataStream} (h : AllMeet ops s) :
    (run ops s).map seen = s.toQueue.run ops ∧
      ∀ r, run ops s = some r → ReportsEndOfData r.2 :=
  ⟨run_seen h, fun r _ => r.2.reportsEndOfData⟩

/-- A call that is made before others. -/
lemma allMeet_cons {op : Op α} {ops : List (Op α)} {r : Answer α × CDataStream} (h : op.Meets s)
    (hs : s.step op = some r) (hr : AllMeet ops r.2) : AllMeet (op :: ops) s := by
  refine ⟨h, fun r' hr' => ?_⟩
  rw [hs] at hr'
  cases hr'
  exact hr

theorem run_refines_rewind :
    (run [Op.read 1, .rewind 1, .shiftLeftStream (ofBytes [9]), .ignore 3] (ofBytes [7, 8]) :
      Option (List (Answer Unit) × CDataStream)).map seen
        = (ofBytes [7, 8]).toQueue.run
          [Op.read 1, .rewind 1, .shiftLeftStream (ofBytes [9]), .ignore 3] ∧
      ∀ r : List (Answer Unit) × CDataStream,
        run [Op.read 1, .rewind 1, .shiftLeftStream (ofBytes [9]), .ignore 3] (ofBytes [7, 8])
          = some r → ReportsEndOfData r.2 := by
  refine run_refines (allMeet_cons ?_ rfl (allMeet_cons trivial rfl (allMeet_cons ?_ rfl
    (allMeet_cons ?_ rfl trivial))))
  · exact (by decide : 0 + 1 < 2 ^ 32)
  · exact ⟨rfl, (by decide : 1 < 2 ^ 31)⟩
  · exact (by decide : 0 + 3 < 2 ^ 32)

/-- After one byte of two has been read, writing the stream to another one writes both. -/
theorem not_run_refines :
    ¬ ∀ (w : Bytes) (ops : List (Op Unit)) (answers : List (Answer Unit)) (b : CDataStream),
      run ops (ofBytes w) = some (answers, b) → ∀ s : CDataStream,
        (run [(Op.shiftLeftStream b : Op Unit)] s).map seen
          = s.toQueue.run [Op.shiftLeftStream b] := by
  intro h
  have hrun := h [7, 8] [.read 1] _ _ rfl (ofBytes [])
  have hbytes := congrArg (Option.map fun r => r.2.bytes.unread) hrun
  exact absurd hbytes (by decide)

/-! ## Where they differ -/

/-- A stream is written to another one as `operator+=` appends it only if nothing has been read from
it and an `int` holds its size. -/
lemma serializeInto_eq_append_iff {b : CDataStream} :
    b.serializeInto s = some (s.append b) ↔ b.nReadPos = 0 ∧ b.vch.length < 2 ^ 31 := by
  refine ⟨fun h => ?_, fun h => serializeInto_eq h.1 h.2⟩
  have hle := b.pos_le
  have hlt := b.nReadPos.toNat_lt
  have hzero : b.nReadPos.toNat = 0 → b.nReadPos = 0 := fun h0 => UInt32.toNat_inj.mp h0
  rw [serializeInto] at h
  split at h
  · next hempty =>
    rw [List.isEmpty_iff.mp hempty] at hle ⊢
    exact ⟨hzero (Nat.le_zero.mp hle), by decide⟩
  · rw [writeBlock, write] at h
    split at h
    · cases h
    · next hsize =>
      have hwrites := congrArg (fun r : Option CDataStream => r.map fun t => t.vch.length) h
      simp only [Option.map_some, pushBack, append, List.length_append, List.length_take,
        unread_length, Option.some.injEq] at hwrites
      have hint := (Int32.ofNat b.vch.length).toNatClampNeg_lt
      have hmod : (Int32.ofNat b.vch.length).toNatClampNeg = b.vch.length % 2 ^ 32 := by
        rw [← Int32.toNat_toUInt32_of_le (Int32.not_lt.mp (not_or.mp hsize).1)]
        rfl
      exact ⟨hzero (by omega), by omega⟩

/-- Stepping over bytes differs from the queue as soon as the position wraps around. -/
lemma pass_seen_iff (h0 : 0 ≤ nSize) (psz : String) (answer : Answer α) :
    (s.pass nSize psz answer).map seen = s.toQueue.pass nSize psz answer ↔
      s.nReadPos.toNat + nSize.toNatClampNeg < 2 ^ 32 := by
  refine ⟨fun h => ?_, fun h => pass_seen h psz answer⟩
  by_contra hwrap
  have hsize := nSize.toNatClampNeg_lt
  have hlt := s.nReadPos.toNat_lt
  have hle := s.pos_le
  have hneg : ¬ nSize < 0 := Int32.not_lt.mpr h0
  have hnext : (s.nReadPos + nSize.toUInt32).toNat
      = s.nReadPos.toNat + nSize.toNatClampNeg - 2 ^ 32 := by
    rw [UInt32.toNat_add, Int32.toNat_toUInt32_of_le h0]
    omega
  -- the position moves back, so more is unread than before
  have hmore : (s.vch.drop s.nReadPos.toNat).length
      < (s.vch.drop (s.nReadPos + nSize.toUInt32).toNat).length := by
    rw [List.length_drop, List.length_drop]
    omega
  rw [pass, if_neg hneg, dif_neg (by omega)] at h
  exact absurd (ByteQueue.length_unread_pass_le h.symm) (not_le.mpr hmore)

end CDataStream

end HyperStake.DataStream
