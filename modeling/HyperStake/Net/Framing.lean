import HyperStake.DataStream

/-!
# Messages on the wire

A node puts a message into the buffer `vSend` with a header in front, whose size and checksum are
set when the message is complete.  The socket takes bytes from the front of the buffer at any time,
and the other node puts its messages together from chunks of any size.

The receiver does not depend on the chunks (`receiveChunks_eq`), and it gets what has been pushed
(`receives_run`).  The start of a header is kept in an `int`, though: a message that is begun while
`2 ^ 31` bytes or more are not sent yet has no size and no checksum.
-/

namespace HyperStake.DataStream.CDataStream

variable (s : CDataStream)

def size : ℕ := s.unread.length

def resize (n : ℕ) : CDataStream :=
  { s with
    vch := s.vch.takeD (n + s.nReadPos.toNat) 0
    pos_le := by
      rw [List.takeD_length]
      exact Nat.le_add_left _ _ }

/-- `memcpy` to the memory at a position. -/
def overwrite (pos : ℕ) (src : Bytes) : CDataStream :=
  { s with
    vch := s.vch.take (pos + s.nReadPos.toNat) ++ src ++
      s.vch.drop (pos + s.nReadPos.toNat + src.length)
    pos_le := by
      have hpos := s.pos_le
      rw [List.length_append, List.length_append, List.length_take]
      omega }

variable {s}

lemma unread_pushBack (pch : Bytes) : (s.pushBack pch).unread = s.unread ++ pch :=
  List.drop_append_of_le_length s.pos_le

lemma unread_resize {n : ℕ} (h : n ≤ s.unread.length) : (s.resize n).unread = s.unread.take n := by
  have hlen := s.unread_length
  have hpos := s.pos_le
  change (s.vch.takeD (n + s.nReadPos.toNat) 0).drop s.nReadPos.toNat = _
  rw [List.takeD_eq_take _ (by omega), List.drop_take, Nat.add_sub_cancel, unread]

end HyperStake.DataStream.CDataStream

namespace HyperStake.Net

open LittleEndian
open HyperStake.DataStream (CDataStream)

/-! ## Headers -/

structure CMessageHeader where
  pchMessageStart : Bytes
  pchCommand : Bytes
  nMessageSize : UInt32 := 0xffffffff
  nChecksum : UInt32 := 0

namespace CMessageHeader

def COMMAND_SIZE : ℕ := 12

def MESSAGE_SIZE_OFFSET : ℕ := 4 + COMMAND_SIZE

def CHECKSUM_OFFSET : ℕ := MESSAGE_SIZE_OFFSET + 4

/-- `strncpy` into the command of a header. -/
def copyCommand (pszCommand : Bytes) : Bytes := pszCommand.takeD COMMAND_SIZE 0

variable (hdr : CMessageHeader)

def serialize : Bytes :=
  hdr.pchMessageStart ++ hdr.pchCommand ++ serializeUInt32 hdr.nMessageSize ++
    serializeUInt32 hdr.nChecksum

/-- `Unserialize` from the 24 bytes of a header. -/
def ofBytes (vch : Bytes) : CMessageHeader where
  pchMessageStart := vch.take 4
  pchCommand := (vch.drop 4).take COMMAND_SIZE
  nMessageSize := UInt32.ofNat (leValue ((vch.drop MESSAGE_SIZE_OFFSET).take 4))
  nChecksum := UInt32.ofNat (leValue ((vch.drop CHECKSUM_OFFSET).take 4))

def getCommand : Bytes :=
  if hdr.pchCommand[COMMAND_SIZE - 1]? = some 0 then hdr.pchCommand.takeWhile (· ≠ 0)
  else hdr.pchCommand

/-- The loop of `IsValid` over the characters of the command that are left. -/
def isValidCommand : Bytes → Bool
  | [] => true
  | p1 :: rest =>
    if p1 = 0 then rest.all (· = 0)
    else if p1 < 0x20 || p1 > 0x7e then false
    else isValidCommand rest

/-- `IsValid`, with the message start of the network. -/
def isValid (pchMessageStart : Bytes) : Bool :=
  decide (hdr.pchMessageStart = pchMessageStart) && isValidCommand hdr.pchCommand &&
    decide (hdr.nMessageSize.toNat ≤ MAX_SIZE)

end CMessageHeader

/-- The network, and `Hash`. -/
structure Network where
  pchMessageStart : Bytes
  length_pchMessageStart : pchMessageStart.length = 4
  hash : Bytes → UInt256

/-- The first four bytes of the hash of some data. -/
def Network.checksum (net : Network) (vch : Bytes) : UInt32 := UInt32.ofNat (net.hash vch).toNat

/-! ## Sending -/

/-- A command that is shorter than the field for it and of printable characters. -/
structure Command where
  psz : Bytes
  length_psz : psz.length ≤ CMessageHeader.COMMAND_SIZE
  printable : ∀ c ∈ psz, 0x20 ≤ c ∧ c ≤ 0x7e

/-- The data of a message, as much as a node accepts. -/
abbrev Payload := { vch : Bytes // vch.length ≤ MAX_SIZE }

/-- The fields of a `CNode` for what it sends, and the bytes that the socket has taken. -/
structure SendState where
  vSend : CDataStream := CDataStream.ofBytes []
  nHeaderStart : Int32 := -1
  nMessageStart : UInt32 := 0xffffffff
  sent : Bytes := []

namespace SendState

variable (net : Network) (s : SendState)

def abortMessage : SendState :=
  if s.nHeaderStart < 0 then s
  else
    { s with
      vSend := s.vSend.resize s.nHeaderStart.toNatClampNeg
      nHeaderStart := -1
      nMessageStart := 0xffffffff }

def beginMessage (pszCommand : Bytes) : SendState :=
  let s := if s.nHeaderStart ≠ -1 then s.abortMessage else s
  let hdr : CMessageHeader :=
    { pchMessageStart := net.pchMessageStart, pchCommand := CMessageHeader.copyCommand pszCommand,
      nMessageSize := 0 }
  let vSend := s.vSend.pushBack hdr.serialize
  { s with
    vSend
    nHeaderStart := Int32.ofNat s.vSend.size
    nMessageStart := UInt32.ofNat vSend.size }

/-- `vSend <<`. -/
def shiftLeft (a : Bytes) : SendState := { s with vSend := s.vSend.pushBack a }

/-- `EndMessage`, which may drop the message for a test. -/
def endMessage (fDrop : Bool) : SendState :=
  if fDrop then s.abortMessage
  else if s.nHeaderStart < 0 then s
  else
    -- set the size
    let nSize := UInt32.ofNat s.vSend.size - s.nMessageStart
    let vSend := s.vSend.overwrite
      (s.nHeaderStart.toNatClampNeg + CMessageHeader.MESSAGE_SIZE_OFFSET) (serializeUInt32 nSize)
    -- set the checksum
    let nChecksum := net.checksum (vSend.unread.drop s.nMessageStart.toNat)
    let vSend := vSend.overwrite
      (s.nHeaderStart.toNatClampNeg + CMessageHeader.CHECKSUM_OFFSET) (serializeUInt32 nChecksum)
    { s with vSend, nHeaderStart := -1, nMessageStart := 0xffffffff }

def pushMessage (pszCommand a : Bytes) (fDrop : Bool) : SendState :=
  ((s.beginMessage net pszCommand).shiftLeft a).endMessage net fDrop

/-- `PushMessage` of an object whose serialisation throws after some bytes. -/
def throwMessage (pszCommand a : Bytes) : SendState :=
  ((s.beginMessage net pszCommand).shiftLeft a).abortMessage

/-- The socket takes some bytes, if there are as many. -/
def socketSend (nBytes : ℕ) : Option SendState :=
  (s.vSend.eraseRange 0 nBytes).map fun vSend =>
    { s with vSend, sent := s.sent ++ s.vSend.unread.take nBytes }

/-- What is done with the buffer. -/
inductive Op where
  | pushMessage (command : Command) (a : Payload) (fDrop : Bool)
  | throwMessage (command : Command) (a : Bytes)
  | socketSend (nBytes : ℕ)

/-- The buffer after something has been done with it. -/
def step : Op → SendState
  | .pushMessage command a fDrop => s.pushMessage net command.psz a.1 fDrop
  | .throwMessage command a => s.throwMessage net command.psz a
  | .socketSend nBytes => (s.socketSend nBytes).getD s

/-- The buffer after several things have been done with it. -/
def run (ops : List Op) : SendState := ops.foldl (step net) s

/-- The bytes that have been sent and those that have not. -/
def stream : Bytes := s.sent ++ s.vSend.unread

end SendState

/-- The messages that are pushed, without those that are aborted. -/
def pushed : List SendState.Op → List (Command × Payload)
  | [] => []
  | .pushMessage command a false :: ops => (command, a) :: pushed ops
  | _ :: ops => pushed ops

/-! ## Receiving -/

structure CNetMessage where
  in_data : Bool := false
  hdrbuf : Bytes := List.replicate 24 0
  hdr : CMessageHeader
  nHdrPos : ℕ := 0
  vRecv : Bytes := []
  nDataPos : ℕ := 0

/-- `memcpy` into a buffer. -/
def copyInto (buf : Bytes) (pos : ℕ) (src : Bytes) : Bytes :=
  buf.take pos ++ src ++ buf.drop (pos + src.length)

namespace CNetMessage

variable (net : Network) (msg : CNetMessage)

/-- A new message. -/
def new : CNetMessage where
  hdr :=
    { pchMessageStart := net.pchMessageStart
      pchCommand := [0, 1] ++ List.replicate 10 0 }

def complete : Bool := msg.in_data && msg.hdr.nMessageSize.toNat == msg.nDataPos

/-- `readHeader`: how many bytes it takes, or none if the message is refused, and the message after
it. -/
def readHeader (pch : Bytes) : Option ℕ × CNetMessage :=
  let nCopy := min (24 - msg.nHdrPos) pch.length
  let hdrbuf := copyInto msg.hdrbuf msg.nHdrPos (pch.take nCopy)
  let nHdrPos := msg.nHdrPos + nCopy
  if nHdrPos < 24 then (some nCopy, { msg with hdrbuf, nHdrPos })
  -- the header is read from the buffer, which is empty then
  else if hdrbuf.length < 24 then (none, { msg with hdrbuf := [], nHdrPos })
  else
    let hdr := CMessageHeader.ofBytes hdrbuf
    if hdr.nMessageSize.toNat > MAX_SIZE then (none, { msg with hdrbuf := [], nHdrPos, hdr })
    else
      (some nCopy, { msg with
        in_data := true, hdrbuf := [], nHdrPos, hdr
        vRecv := msg.vRecv.takeD hdr.nMessageSize.toNat 0 })

/-- `readData`: how many bytes it takes, and the message after it. -/
def readData (pch : Bytes) : Option ℕ × CNetMessage :=
  let nCopy := min (msg.hdr.nMessageSize.toNat - msg.nDataPos) pch.length
  (some nCopy, { msg with
    vRecv := copyInto msg.vRecv msg.nDataPos (pch.take nCopy)
    nDataPos := msg.nDataPos + nCopy })

/-- The message takes bytes for its header or for its data. -/
def absorb (pch : Bytes) : Option ℕ × CNetMessage :=
  if !msg.in_data then msg.readHeader pch else msg.readData pch

/-- The checks of `ProcessMessages`: the command and the data that it processes. -/
def accepted : Option (Bytes × Bytes) :=
  if !msg.complete then none
  else if msg.hdr.pchMessageStart ≠ net.pchMessageStart then none
  else if !msg.hdr.isValid net.pchMessageStart then none
  else if net.checksum (msg.vRecv.take msg.hdr.nMessageSize.toNat) ≠ msg.hdr.nChecksum then none
  else some (msg.hdr.getCommand, msg.vRecv)

end CNetMessage

/-- The messages before the one that is not complete, and this one, or a new one. -/
def currentMessage (net : Network) (vRecvMsg : List CNetMessage) :
    List CNetMessage × CNetMessage :=
  match vRecvMsg.getLast? with
  | none => ([], CNetMessage.new net)
  | some back => if back.complete then (vRecvMsg, CNetMessage.new net) else (vRecvMsg.dropLast, back)

/-- `ReceiveMsgBytes`: whether it returns true, and the messages after it.  A turn of the loop that
takes no byte would be repeated forever. -/
def receiveMsgBytes (net : Network) (vRecvMsg : List CNetMessage) (pch : Bytes) :
    Except Fault Bool × List CNetMessage :=
  if pch = [] then (.ok true, vRecvMsg)
  else
    let (messages, msg) := currentMessage net vRecvMsg
    match msg.absorb pch with
    | (none, msg) => (.ok false, messages ++ [msg])
    | (some handled, msg) =>
      if _h : 0 < handled ∧ handled ≤ pch.length then
        receiveMsgBytes net (messages ++ [msg]) (pch.drop handled)
      else (.error .endless, messages ++ [msg])
termination_by pch.length
decreasing_by
  rw [List.length_drop]
  omega

/-- Chunks one after the other, until one is refused. -/
def receiveChunks (net : Network) :
    List CNetMessage → List Bytes → Except Fault Bool × List CNetMessage
  | vRecvMsg, [] => (.ok true, vRecvMsg)
  | vRecvMsg, pch :: chunks =>
    match receiveMsgBytes net vRecvMsg pch with
    | (.ok true, vRecvMsg) => receiveChunks net vRecvMsg chunks
    | r => r

/-! ## What the receiver makes of a stream -/

/-- A header and data of the size that it says. -/
structure Frame where
  pchMessageStart : Bytes
  pchCommand : Bytes
  nChecksum : UInt32
  data : Payload
  length_pchMessageStart : pchMessageStart.length = 4
  length_pchCommand : pchCommand.length = CMessageHeader.COMMAND_SIZE

/-- A buffer of which the bytes up to a position have been filled in. -/
def filledTo (vch : Bytes) (n : ℕ) : Bytes := vch.take n ++ List.replicate (vch.length - n) 0

namespace Frame

variable (net : Network) (f : Frame)

/-- The header. -/
def hdr : CMessageHeader where
  pchMessageStart := f.pchMessageStart
  pchCommand := f.pchCommand
  nMessageSize := UInt32.ofNat f.data.1.length
  nChecksum := f.nChecksum

/-- The bytes of the message. -/
def bytes : Bytes := f.hdr.serialize ++ f.data.1

/-- The message after some of its bytes. -/
def received (n : ℕ) : CNetMessage :=
  if n < 24 then { CNetMessage.new net with hdrbuf := filledTo f.hdr.serialize n, nHdrPos := n }
  else
    { in_data := true, hdrbuf := [], hdr := f.hdr, nHdrPos := 24
      vRecv := filledTo f.data.1 (n - 24), nDataPos := n - 24 }

end Frame

/-- The messages after some of the bytes of some frames. -/
def assembled (net : Network) : List Frame → ℕ → List CNetMessage
  | [], _ => []
  | f :: fs, n =>
    if n = 0 then []
    else if n < f.bytes.length then [f.received net n]
    else f.received net f.bytes.length :: assembled net fs (n - f.bytes.length)

section Buffers

variable {vch pch : Bytes} {n k : ℕ}

/-- More bytes are filled in. -/
lemma copyInto_filledTo (h : n + k ≤ vch.length) :
    copyInto (filledTo vch n) n ((vch.drop n).take k) = filledTo vch (n + k) := by
  have hn : (vch.take n).length = n := List.length_take_of_le (by omega)
  have hk : ((vch.drop n).take k).length = k :=
    List.length_take_of_le (by rw [List.length_drop]; omega)
  have htake : (filledTo vch n).take n = vch.take n := by
    rw [filledTo, List.take_append_of_le_length hn.ge, List.take_take, min_self]
  have hdrop : (filledTo vch n).drop (n + k) = List.replicate (vch.length - (n + k)) 0 := by
    rw [filledTo, List.drop_append, hn, List.drop_of_length_le (by omega), List.nil_append,
      List.drop_replicate]
    congr 1
    omega
  rw [copyInto, hk, htake, hdrop, filledTo, List.take_add]

lemma filledTo_length : filledTo vch vch.length = vch := by simp [filledTo]

lemma filledTo_zero : filledTo vch 0 = List.replicate vch.length 0 := by simp [filledTo]

/-- The bytes of a chunk that belong to a message. -/
lemma take_of_prefix {rest : Bytes} (h : pch <+: vch ++ rest) (hpch : k ≤ pch.length)
    (hvch : k ≤ vch.length) : pch.take k = vch.take k := by
  rw [← List.take_append_of_le_length hvch]
  obtain ⟨tail, htail⟩ := h
  rw [← htail, List.take_append_of_le_length hpch]

end Buffers

namespace CMessageHeader

variable {hdr : CMessageHeader}

section

variable (hstart : hdr.pchMessageStart.length = 4) (hcommand : hdr.pchCommand.length = COMMAND_SIZE)

include hstart hcommand

lemma length_serialize : hdr.serialize.length = 24 := by
  simp [serialize, hstart, hcommand, serializeUInt32, COMMAND_SIZE]

/-- A header is read back. -/
lemma ofBytes_serialize : ofBytes hdr.serialize = hdr := by
  have hvalue : ∀ n : UInt32, UInt32.ofNat (leValue (serializeUInt32 n)) = n := by
    intro n
    rw [serializeUInt32, leValue_leBytes_of_lt n.toNat_lt, UInt32.ofNat_toNat]
  have hsize : ∀ n : UInt32, (serializeUInt32 n).length = 4 := fun n => leBytes_length 4 _
  have hfirst : (hdr.pchMessageStart ++ hdr.pchCommand).length = MESSAGE_SIZE_OFFSET := by
    rw [List.length_append, hstart, hcommand]
    rfl
  have hsecond : (hdr.pchMessageStart ++ hdr.pchCommand ++
      serializeUInt32 hdr.nMessageSize).length = CHECKSUM_OFFSET := by
    rw [List.length_append, hfirst, hsize]
    rfl
  rw [ofBytes, serialize]
  congr 1
  · rw [List.append_assoc, List.append_assoc, List.take_append_of_le_length hstart.ge,
      List.take_of_length_le hstart.le]
  · rw [List.append_assoc, List.append_assoc, ← hstart, List.drop_left, ← hcommand,
      List.take_left]
  · rw [List.append_assoc, ← hfirst, List.drop_left, ← hsize hdr.nMessageSize, List.take_left,
      hvalue]
  · rw [← hsecond, List.drop_left, List.take_of_length_le (hsize _).le, hvalue]

end

end CMessageHeader

namespace Frame

variable {net : Network} {f : Frame}

lemma length_hdr : f.hdr.serialize.length = 24 :=
  CMessageHeader.length_serialize f.length_pchMessageStart f.length_pchCommand

lemma length_bytes : f.bytes.length = 24 + f.data.1.length := by
  rw [bytes, List.length_append, length_hdr]

lemma nMessageSize_hdr : f.hdr.nMessageSize.toNat = f.data.1.length := by
  have hdata := f.data.2
  rw [hdr, UInt32.toNat_ofNat', Nat.mod_eq_of_lt]
  exact hdata.trans_lt (by decide)

/-- A new message. -/
lemma received_zero : f.received net 0 = CNetMessage.new net := by
  rw [received, if_pos (by decide), filledTo_zero, length_hdr]
  rfl

/-- A message is complete when all of its bytes are there. -/
lemma complete_received (n : ℕ) : (f.received net n).complete = decide (n = f.bytes.length) := by
  rw [length_bytes, received, CNetMessage.complete]
  split_ifs with h
  · rw [decide_eq_false (by omega)]
    rfl
  · simp only [nMessageSize_hdr, Bool.true_and]
    by_cases hall : n = 24 + f.data.1.length
    · simp [hall]
    · rw [decide_eq_false hall]
      simp only [beq_eq_false_iff_ne, ne_eq]
      omega

/-- A message takes the bytes of a chunk that belong to its header or to its data. -/
lemma absorb_received {n : ℕ} {pch rest : Bytes} (hn : n < f.bytes.length) (hpch : pch ≠ [])
    (hchunk : pch <+: f.bytes.drop n ++ rest) :
    ∃ k, 0 < k ∧ k ≤ pch.length ∧ n + k ≤ f.bytes.length ∧
      (f.received net n).absorb pch = (some k, f.received net (n + k)) := by
  have hpos : 0 < pch.length := List.length_pos_iff.mpr hpch
  have hbytes := f.length_bytes
  have hhdr := f.length_hdr
  have htake : ∀ k ≤ pch.length, n + k ≤ f.bytes.length →
      pch.take k = (f.bytes.drop n).take k := by
    intro k hk hle
    exact take_of_prefix hchunk hk (by rw [List.length_drop]; omega)
  by_cases hheader : n < 24
  · obtain ⟨k, hk⟩ : ∃ k, k = min (24 - n) pch.length := ⟨_, rfl⟩
    have hcopy : copyInto (filledTo f.hdr.serialize n) n (pch.take k) =
        filledTo f.hdr.serialize (n + k) := by
      rw [htake k (by omega) (by omega), bytes, List.drop_append_of_le_length (by omega),
        List.take_append_of_le_length (by rw [List.length_drop]; omega)]
      exact copyInto_filledTo (by omega)
    refine ⟨k, by omega, by omega, by omega, ?_⟩
    rw [received, if_pos hheader]
    change CNetMessage.readHeader _ pch = _
    rw [CNetMessage.readHeader]
    dsimp only
    rw [← hk, hcopy]
    by_cases hmore : n + k < 24
    · rw [if_pos hmore, received, if_pos hmore]
    · -- the header is complete
      have hall : n + k = f.hdr.serialize.length := by omega
      rw [if_neg hmore, hall, filledTo_length, if_neg (by omega),
        CMessageHeader.ofBytes_serialize f.length_pchMessageStart f.length_pchCommand,
        nMessageSize_hdr, if_neg (not_lt.mpr f.data.2), hhdr, received, if_neg (lt_irrefl 24),
        Nat.sub_self, filledTo_zero, show (CNetMessage.new net).vRecv = [] from rfl,
        List.takeD_nil]
      rfl
  · obtain ⟨k, hk⟩ : ∃ k, k = min (f.data.1.length - (n - 24)) pch.length := ⟨_, rfl⟩
    have hcopy : copyInto (filledTo f.data.1 (n - 24)) (n - 24) (pch.take k) =
        filledTo f.data.1 (n + k - 24) := by
      rw [htake k (by omega) (by omega), bytes, List.drop_append, List.drop_of_length_le (by omega),
        List.nil_append, hhdr, show n + k - 24 = n - 24 + k by omega]
      exact copyInto_filledTo (by omega)
    refine ⟨k, by omega, by omega, by omega, ?_⟩
    rw [received, if_neg hheader]
    change CNetMessage.readData _ pch = _
    rw [CNetMessage.readData]
    dsimp only
    rw [nMessageSize_hdr, ← hk, hcopy, received, if_neg (by omega),
      show n + k - 24 = n - 24 + k by omega]

end Frame

section Receiver

variable {net : Network} {fs : List Frame}

lemma assembled_zero : assembled net fs 0 = [] := by
  cases fs with
  | nil => rfl
  | cons f fs => exact if_pos rfl

lemma assembled_of_lt {f : Frame} {n : ℕ} (hpos : 0 < n) (hn : n < f.bytes.length) :
    assembled net (f :: fs) n = [f.received net n] := by
  rw [assembled, if_neg hpos.ne', if_pos hn]

lemma assembled_of_le {f : Frame} {n : ℕ} (hn : f.bytes.length ≤ n) :
    assembled net (f :: fs) n =
      f.received net f.bytes.length :: assembled net fs (n - f.bytes.length) := by
  have hpos := f.length_bytes
  rw [assembled, if_neg (by omega), if_neg (not_lt.mpr hn)]

/-- A complete message is left alone. -/
lemma currentMessage_cons {msg : CNetMessage} (hmsg : msg.complete = true)
    (vRecvMsg : List CNetMessage) :
    currentMessage net (msg :: vRecvMsg) =
      (msg :: (currentMessage net vRecvMsg).1, (currentMessage net vRecvMsg).2) := by
  rcases List.eq_nil_or_concat vRecvMsg with rfl | ⟨front, back, rfl⟩
  · simp [currentMessage, hmsg]
  · rw [currentMessage, currentMessage, List.concat_eq_append, List.getLast?_append,
      ← List.cons_append, List.getLast?_append]
    cases hback : back.complete with
    | true => simp [hback]
    | false => simp [hback, List.dropLast_cons_of_ne_nil]

/-- Somewhere in a stream, the current message is that of a frame of which not all bytes are
there. -/
lemma exists_current {n : ℕ} (hn : n < (fs.flatMap Frame.bytes).length) :
    ∃ (front : List CNetMessage) (f : Frame) (k : ℕ) (rest : Bytes),
      currentMessage net (assembled net fs n) = (front, f.received net k) ∧
      k < f.bytes.length ∧ (fs.flatMap Frame.bytes).drop n = f.bytes.drop k ++ rest ∧
      ∀ m, 0 < m → k + m ≤ f.bytes.length →
        assembled net fs (n + m) = front ++ [f.received net (k + m)] := by
  induction fs generalizing n with
  | nil => simp at hn
  | cons f fs ih =>
    rw [List.flatMap_cons] at hn ⊢
    rw [List.length_append] at hn
    have hbytes := f.length_bytes
    by_cases hlt : n < f.bytes.length
    · refine ⟨[], f, n, fs.flatMap Frame.bytes, ?_, hlt, ?_, ?_⟩
      · rcases Nat.eq_zero_or_pos n with rfl | hpos
        · rw [assembled_zero, Frame.received_zero]
          rfl
        · rw [assembled_of_lt hpos hlt, currentMessage]
          simp [Frame.complete_received, hlt.ne]
      · exact List.drop_append_of_le_length hlt.le
      · intro m hm hle
        rcases hle.lt_or_eq with hmore | hall
        · rw [assembled_of_lt (by omega) hmore, List.nil_append]
        · rw [assembled_of_le hall.ge, hall, Nat.sub_self, assembled_zero, List.nil_append]
    · rw [not_lt] at hlt
      obtain ⟨front, f', k, rest, hcurrent, hk, hrest, hnext⟩ :=
        @ih (n - f.bytes.length) (by omega)
      have hcomplete : (f.received net f.bytes.length).complete = true := by
        rw [Frame.complete_received]
        exact decide_eq_true rfl
      refine ⟨f.received net f.bytes.length :: front, f', k, rest, ?_, hk, ?_, ?_⟩
      · rw [assembled_of_le hlt, currentMessage_cons hcomplete, hcurrent]
      · rw [List.drop_append, List.drop_of_length_le hlt, List.nil_append, hrest]
      · intro m hm hle
        rw [assembled_of_le (by omega), List.cons_append, ← hnext m hm hle,
          Nat.sub_add_comm hlt]

/-- A chunk of a stream is taken, from wherever it starts. -/
lemma receiveMsgBytes_eq {n : ℕ} {pch : Bytes} (hpch : pch <+: (fs.flatMap Frame.bytes).drop n) :
    receiveMsgBytes net (assembled net fs n) pch =
      (.ok true, assembled net fs (n + pch.length)) := by
  induction hlength : pch.length using Nat.strong_induction_on generalizing n pch with
  | _ size ih =>
    subst hlength
    rw [receiveMsgBytes]
    by_cases hnil : pch = []
    · rw [if_pos hnil, hnil, List.length_nil, Nat.add_zero]
    · have hpos := List.length_pos_iff.mpr hnil
      have hle := hpch.length_le
      rw [List.length_drop] at hle
      obtain ⟨front, f, k, rest, hcurrent, hk, hrest, hnext⟩ :=
        @exists_current net fs n (by omega)
      obtain ⟨m, hm, hmle, hmf, habsorb⟩ := @Frame.absorb_received net f k pch rest hk hnil
        (hrest ▸ hpch)
      have htail : pch.drop m <+: (fs.flatMap Frame.bytes).drop (n + m) := by
        rw [← List.drop_drop]
        exact hpch.drop m
      rw [if_neg hnil, hcurrent]
      dsimp only
      rw [habsorb]
      dsimp only
      rw [dif_pos ⟨hm, hmle⟩, ← hnext m hm hmf,
        ih _ (by rw [List.length_drop]; omega) htail rfl, List.length_drop]
      congr 2
      omega

/-- The messages do not depend on how a stream is split into chunks. -/
lemma receiveChunks_eq {n : ℕ} {chunks : List Bytes}
    (hchunks : chunks.flatten <+: (fs.flatMap Frame.bytes).drop n) :
    receiveChunks net (assembled net fs n) chunks =
      (.ok true, assembled net fs (n + chunks.flatten.length)) := by
  induction chunks generalizing n with
  | nil => rfl
  | cons pch chunks ih =>
    rw [List.flatten_cons] at hchunks ⊢
    have hrest : chunks.flatten <+: (fs.flatMap Frame.bytes).drop (n + pch.length) := by
      rw [← List.drop_drop]
      have hdrop := hchunks.drop pch.length
      rwa [List.drop_left] at hdrop
    rw [receiveChunks, receiveMsgBytes_eq ((List.prefix_append _ _).trans hchunks)]
    dsimp only
    rw [ih hrest, List.length_append, Nat.add_assoc]

/-- A whole stream of frames is a complete message for each, and what follows does not change
this. -/
lemma assembled_append {gs : List Frame} {n : ℕ} :
    assembled net (fs ++ gs) ((fs.flatMap Frame.bytes).length + n) =
      fs.map (fun f => f.received net f.bytes.length) ++ assembled net gs n := by
  induction fs with
  | nil => simp
  | cons f fs ih =>
    rw [List.flatMap_cons, List.length_append, Nat.add_assoc, List.cons_append,
      assembled_of_le (Nat.le_add_right _ _), Nat.add_sub_cancel_left, ih, List.map_cons,
      List.cons_append]

lemma assembled_all :
    assembled net fs (fs.flatMap Frame.bytes).length =
      fs.map (fun f => f.received net f.bytes.length) := by
  have happend := @assembled_append net fs [] 0
  rwa [List.append_nil, Nat.add_zero, assembled_zero, List.append_nil] at happend

end Receiver

/-! ## What the sender puts into the stream -/

/-- The frame of a message. -/
def frameOf (net : Network) (m : Command × Payload) : Frame where
  pchMessageStart := net.pchMessageStart
  pchCommand := CMessageHeader.copyCommand m.1.psz
  nChecksum := net.checksum m.2.1
  data := m.2
  length_pchMessageStart := net.length_pchMessageStart
  length_pchCommand := List.takeD_length _ _ _

lemma unread_overwrite {s : CDataStream} {pos : ℕ} {src : Bytes} :
    (s.overwrite pos src).unread = copyInto s.unread pos src := by
  have hlen := s.unread_length
  have hpos := s.pos_le
  change (s.vch.take (pos + s.nReadPos.toNat) ++ src ++
    s.vch.drop (pos + s.nReadPos.toNat + src.length)).drop s.nReadPos.toNat = _
  rw [List.append_assoc, List.drop_append_of_le_length
    (by rw [List.length_take]; omega), List.drop_take, Nat.add_sub_cancel, copyInto,
    CDataStream.unread, List.drop_drop, List.append_assoc, ← Nat.add_assoc,
    Nat.add_comm s.nReadPos.toNat]

/-- Bytes in the middle are written over. -/
lemma copyInto_middle {front old src tail : Bytes} (h : old.length = src.length) :
    copyInto (front ++ (old ++ tail)) front.length src = front ++ (src ++ tail) := by
  rw [copyInto, List.take_left, ← h, ← List.drop_drop, List.drop_left, List.drop_left,
    List.append_assoc]

namespace SendState

variable {net : Network} {s : SendState}

/-- The operation is one for which the buffer is small enough. -/
def Meets (s : SendState) : Op → Prop
  | .pushMessage _ _ _ => s.vSend.size < 2 ^ 31
  | .throwMessage _ _ => s.vSend.size < 2 ^ 31
  | .socketSend nBytes => nBytes < s.vSend.size → s.vSend.nReadPos.toNat + nBytes < 2 ^ 32

/-- So is every operation of a sequence. -/
def AllMeet (net : Network) : SendState → List Op → Prop
  | _, [] => True
  | s, op :: ops => s.Meets op ∧ AllMeet net (s.step net op) ops

/-- The header of a message that is not complete. -/
def begun (net : Network) (pszCommand : Bytes) : CMessageHeader where
  pchMessageStart := net.pchMessageStart
  pchCommand := CMessageHeader.copyCommand pszCommand
  nMessageSize := 0

lemma length_begun (psz : Bytes) : (begun net psz).serialize.length = 24 :=
  CMessageHeader.length_serialize net.length_pchMessageStart (List.takeD_length _ _ _)

/-- A header is begun behind what is not sent yet. -/
lemma shiftLeft_beginMessage (hready : s.nHeaderStart = -1) (psz a : Bytes) :
    (s.beginMessage net psz).shiftLeft a =
      { s with
        vSend := (s.vSend.pushBack (begun net psz).serialize).pushBack a
        nHeaderStart := Int32.ofNat s.vSend.size
        nMessageStart := UInt32.ofNat (s.vSend.size + 24) } := by
  have hsize : (s.vSend.pushBack (begun net psz).serialize).size = s.vSend.size + 24 := by
    rw [CDataStream.size, CDataStream.unread_pushBack, List.length_append, length_begun,
      CDataStream.size]
  rw [beginMessage, if_neg (not_not.mpr hready), shiftLeft, ← hsize]
  rfl

/-- What is not sent yet when the data of a message has been written. -/
lemma unread_begun (psz a : Bytes) :
    ((s.vSend.pushBack (begun net psz).serialize).pushBack a).unread =
      s.vSend.unread ++ ((begun net psz).serialize ++ a) := by
  rw [CDataStream.unread_pushBack, CDataStream.unread_pushBack, List.append_assoc]

lemma ofNat_size_not_neg (hsize : s.vSend.size < 2 ^ 31) : ¬ Int32.ofNat s.vSend.size < 0 := by
  rw [Int32.lt_iff_toInt_lt, Int32.toInt_ofNat_of_lt hsize]
  exact not_lt.mpr (Int.natCast_nonneg _)

/-- An aborted message leaves no trace. -/
lemma abortMessage_begun (hready : s.nHeaderStart = -1) (hsize : s.vSend.size < 2 ^ 31)
    (psz a : Bytes) :
    (((s.beginMessage net psz).shiftLeft a).abortMessage).nHeaderStart = -1 ∧
      (((s.beginMessage net psz).shiftLeft a).abortMessage).stream = s.stream := by
  rw [shiftLeft_beginMessage hready, abortMessage, if_neg (ofNat_size_not_neg hsize)]
  refine ⟨rfl, ?_⟩
  have hle : s.vSend.size ≤ (s.vSend.unread ++ ((begun net psz).serialize ++ a)).length := by
    rw [List.length_append]
    exact Nat.le_add_right _ _
  dsimp only [stream]
  rw [Int32.toNatClampNeg_ofNat_of_lt hsize, CDataStream.unread_resize (by rwa [unread_begun]),
    unread_begun, CDataStream.size, List.take_left]

/-- A message that is complete stands behind what is not sent yet. -/
lemma pushMessage_false (hready : s.nHeaderStart = -1) (hsize : s.vSend.size < 2 ^ 31)
    (command : Command) (a : Payload) :
    (s.pushMessage net command.psz a.1 false).nHeaderStart = -1 ∧
      (s.pushMessage net command.psz a.1 false).stream =
        s.stream ++ (frameOf net (command, a)).bytes := by
  obtain ⟨vSend, hvSend⟩ : ∃ vSend,
    vSend = (s.vSend.pushBack (begun net command.psz).serialize).pushBack a.1 := ⟨_, rfl⟩
  obtain ⟨start, hstart⟩ : ∃ start, start = net.pchMessageStart ++
    CMessageHeader.copyCommand command.psz := ⟨_, rfl⟩
  have hdata := a.2
  have hmax : MAX_SIZE = 33554432 := rfl
  have hfront : start.length = CMessageHeader.MESSAGE_SIZE_OFFSET := by
    rw [hstart, List.length_append, net.length_pchMessageStart, CMessageHeader.copyCommand,
      List.takeD_length]
    rfl
  have hlength : ∀ n, (serializeUInt32 n).length = 4 := fun n => leBytes_length 4 _
  -- the header with a size and a checksum, and the data
  have hunread : vSend.unread = s.vSend.unread ++ (start ++ (serializeUInt32 0 ++
      (serializeUInt32 0 ++ a.1))) := by
    rw [hvSend, unread_begun, begun, CMessageHeader.serialize, hstart]
    simp only [List.append_assoc]
  have hnSize : UInt32.ofNat vSend.size - UInt32.ofNat (s.vSend.size + 24) =
      UInt32.ofNat a.1.length := by
    have hsum : vSend.size = s.vSend.size + 24 + a.1.length := by
      rw [CDataStream.size, hvSend, unread_begun, List.length_append, List.length_append,
        length_begun, CDataStream.size, Nat.add_assoc]
    rw [hsum, UInt32.ofNat_add, add_sub_cancel_left]
  have hfirst : ∀ n, (vSend.overwrite (s.vSend.size + CMessageHeader.MESSAGE_SIZE_OFFSET)
      (serializeUInt32 n)).unread =
      s.vSend.unread ++ (start ++ (serializeUInt32 n ++ (serializeUInt32 0 ++ a.1))) := by
    intro n
    have hpos : s.vSend.size + CMessageHeader.MESSAGE_SIZE_OFFSET =
        (s.vSend.unread ++ start).length := by
      rw [List.length_append, hfront, CDataStream.size]
    rw [unread_overwrite, hunread, hpos, ← List.append_assoc,
      copyInto_middle ((hlength 0).trans (hlength n).symm), List.append_assoc]
  have hsecond : ∀ n m, copyInto (s.vSend.unread ++ (start ++ (serializeUInt32 n ++
      (serializeUInt32 0 ++ a.1)))) (s.vSend.size + CMessageHeader.CHECKSUM_OFFSET)
      (serializeUInt32 m) =
      s.vSend.unread ++ (start ++ (serializeUInt32 n ++ (serializeUInt32 m ++ a.1))) := by
    intro n m
    have hpos : s.vSend.size + CMessageHeader.CHECKSUM_OFFSET =
        (s.vSend.unread ++ start ++ serializeUInt32 n).length := by
      rw [List.length_append, List.length_append, hfront, hlength, CDataStream.size,
        CMessageHeader.CHECKSUM_OFFSET, Nat.add_assoc]
    rw [hpos, ← List.append_assoc, ← List.append_assoc,
      copyInto_middle ((hlength 0).trans (hlength m).symm), List.append_assoc, List.append_assoc]
  have hdrop : ∀ n, (s.vSend.unread ++ (start ++ (serializeUInt32 n ++ (serializeUInt32 0 ++
      a.1)))).drop (UInt32.ofNat (s.vSend.size + 24)).toNat = a.1 := by
    intro n
    have hpos : (UInt32.ofNat (s.vSend.size + 24)).toNat =
        (s.vSend.unread ++ start ++ serializeUInt32 n ++ serializeUInt32 0).length := by
      rw [UInt32.toNat_ofNat', Nat.mod_eq_of_lt (by omega), List.length_append, List.length_append,
        List.length_append, hfront, hlength, hlength, CDataStream.size]
      rfl
    rw [hpos, ← List.append_assoc, ← List.append_assoc, ← List.append_assoc, List.drop_left]
  rw [pushMessage, shiftLeft_beginMessage hready, endMessage, if_neg Bool.false_ne_true,
    if_neg (ofNat_size_not_neg hsize), ← hvSend]
  refine ⟨rfl, ?_⟩
  dsimp only [stream]
  rw [Int32.toNatClampNeg_ofNat_of_lt hsize, hnSize, unread_overwrite, hfirst, hsecond, hdrop,
    hstart, Frame.bytes, Frame.hdr, CMessageHeader.serialize]
  simp only [frameOf, List.append_assoc]

/-- What the socket takes has been sent. -/
lemma socketSend_stream {nBytes : ℕ}
    (h : nBytes < s.vSend.size → s.vSend.nReadPos.toNat + nBytes < 2 ^ 32) :
    ((s.socketSend nBytes).getD s).nHeaderStart = s.nHeaderStart ∧
      ((s.socketSend nBytes).getD s).stream = s.stream := by
  rw [socketSend, CDataStream.eraseRange, if_pos rfl]
  by_cases hall : nBytes = s.vSend.unread.length
  · rw [if_pos hall]
    refine ⟨rfl, ?_⟩
    have hclear : s.vSend.clear.unread = [] := rfl
    rw [hall, Option.map_some, Option.getD_some, stream, hclear, List.take_length, List.append_nil,
      stream]
  · rw [if_neg hall]
    by_cases hless : nBytes < s.vSend.unread.length
    · rw [dif_pos hless]
      refine ⟨rfl, ?_⟩
      change s.sent ++ s.vSend.unread.take nBytes ++
        s.vSend.vch.drop (UInt32.ofNat (s.vSend.nReadPos.toNat + nBytes)).toNat = _
      rw [UInt32.toNat_ofNat', Nat.mod_eq_of_lt (h hless), List.append_assoc, ← List.drop_drop,
        ← CDataStream.unread, List.take_append_drop, stream]
    · rw [dif_neg hless]
      exact ⟨rfl, rfl⟩

/-- The stream after an operation: a frame more for a message that is not aborted. -/
lemma step_stream {op : Op} (hready : s.nHeaderStart = -1) (h : s.Meets op) :
    (s.step net op).nHeaderStart = -1 ∧
      (s.step net op).stream =
        s.stream ++ ((pushed [op]).map (frameOf net)).flatMap Frame.bytes := by
  rcases op with ⟨command, a, fDrop⟩ | ⟨command, a⟩ | nBytes
  · cases fDrop with
    | false =>
      have hpush := @pushMessage_false net s hready h command a
      refine ⟨hpush.1, hpush.2.trans ?_⟩
      simp [pushed]
    | true =>
      have habort := @abortMessage_begun net s hready h command.psz a.1
      exact ⟨habort.1, habort.2.trans (List.append_nil _).symm⟩
  · have habort := @abortMessage_begun net s hready h command.psz a
    exact ⟨habort.1, habort.2.trans (List.append_nil _).symm⟩
  · have hsend := socketSend_stream h
    exact ⟨hsend.1.trans hready, hsend.2.trans (List.append_nil _).symm⟩

lemma pushed_cons (op : Op) (ops : List Op) : pushed (op :: ops) = pushed [op] ++ pushed ops := by
  rcases op with ⟨command, a, _ | _⟩ | _ | _ <;> rfl

lemma pushed_append (ops ops' : List Op) : pushed (ops ++ ops') = pushed ops ++ pushed ops' := by
  induction ops with
  | nil => rfl
  | cons op ops ih =>
    rw [List.cons_append, pushed_cons, ih, pushed_cons op ops, List.append_assoc]

/-- The stream after a run: a frame for each message that is not aborted. -/
lemma run_stream {ops : List Op} (hready : s.nHeaderStart = -1) (h : AllMeet net s ops) :
    (s.run net ops).nHeaderStart = -1 ∧
      (s.run net ops).stream =
        s.stream ++ ((pushed ops).map (frameOf net)).flatMap Frame.bytes := by
  induction ops generalizing s with
  | nil => exact ⟨hready, (List.append_nil _).symm⟩
  | cons op ops ih =>
    obtain ⟨hready', hstep⟩ := @step_stream net s op hready h.1
    obtain ⟨hready'', hrun⟩ := ih hready' h.2
    refine ⟨hready'', hrun.trans ?_⟩
    rw [hstep, pushed_cons op ops, List.map_append, List.flatMap_append, List.append_assoc]

end SendState

/-! ## What is received of what has been pushed -/

lemma takeD_eq_append {src : Bytes} {n : ℕ} (h : src.length ≤ n) :
    src.takeD n 0 = src ++ List.replicate (n - src.length) 0 := by
  induction src generalizing n with
  | nil => rw [List.takeD_nil, List.nil_append, List.length_nil, Nat.sub_zero]
  | cons c src ih =>
    rw [List.length_cons] at h ⊢
    obtain ⟨m, rfl⟩ := Nat.exists_eq_add_of_le' (Nat.one_le_of_lt h)
    have htail := ih (Nat.le_of_succ_le_succ h)
    rw [List.takeD_succ, List.head?_cons, List.tail_cons, Option.getD_some, htail,
      List.cons_append, Nat.add_sub_add_right]

namespace Command

variable (command : Command)

/-- A command is filled up with zeros. -/
lemma copyCommand_psz :
    CMessageHeader.copyCommand command.psz =
      command.psz ++ List.replicate (CMessageHeader.COMMAND_SIZE - command.psz.length) 0 :=
  takeD_eq_append command.length_psz

lemma ne_zero {c : UInt8} (h : c ∈ command.psz) : c ≠ 0 := by
  rintro rfl
  exact absurd (command.printable 0 h).1 (by decide)

/-- The command of a header is that which was put in. -/
lemma getCommand_copyCommand {hdr : CMessageHeader}
    (h : hdr.pchCommand = CMessageHeader.copyCommand command.psz) :
    hdr.getCommand = command.psz := by
  rw [CMessageHeader.getCommand, h, copyCommand_psz]
  rcases command.length_psz.lt_or_eq with hless | hfull
  · have hlast : (command.psz ++ List.replicate (CMessageHeader.COMMAND_SIZE - command.psz.length)
        (0 : UInt8))[CMessageHeader.COMMAND_SIZE - 1]? = some 0 := by
      rw [List.getElem?_append_right (by omega), List.getElem?_replicate, if_pos (by omega)]
    rw [if_pos hlast, List.takeWhile_append_of_pos fun c hc => decide_eq_true (command.ne_zero hc),
      List.takeWhile_replicate_eq_filter]
    simp
  · rw [hfull, Nat.sub_self, List.replicate_zero, List.append_nil, if_neg]
    intro hlast
    exact command.ne_zero (List.mem_of_getElem? hlast) rfl

/-- Printable characters with zeros behind are a valid command. -/
lemma isValidCommand_append {psz : Bytes} (h : ∀ c ∈ psz, 0x20 ≤ c ∧ c ≤ 0x7e) (k : ℕ) :
    CMessageHeader.isValidCommand (psz ++ List.replicate k 0) = true := by
  induction psz with
  | nil =>
    cases k with
    | zero => rfl
    | succ k => simp [CMessageHeader.isValidCommand, List.replicate_succ]
  | cons c psz ih =>
    obtain ⟨hlow, hhigh⟩ := h c List.mem_cons_self
    have hzero : c ≠ 0 := by
      rintro rfl
      exact absurd hlow (by decide)
    rw [List.cons_append, CMessageHeader.isValidCommand, if_neg hzero, if_neg]
    · exact ih fun d hd => h d (List.mem_cons_of_mem _ hd)
    · simp [hlow, hhigh]

end Command

/-- The message has the command, the size, the checksum and the data of one that was pushed, and
passes the checks. -/
structure Carries (net : Network) (msg : CNetMessage) (m : Command × Payload) : Prop where
  accepted : msg.accepted net = some (m.1.psz, m.2.1)
  nMessageSize : msg.hdr.nMessageSize.toNat = m.2.1.length
  nChecksum : msg.hdr.nChecksum = net.checksum m.2.1

variable (net : Network)

/-- The message that is put together from the frame of one that was pushed carries it. -/
lemma carries_received (m : Command × Payload) :
    Carries net ((frameOf net m).received net (frameOf net m).bytes.length) m := by
  have hcomplete := @Frame.complete_received net (frameOf net m) (frameOf net m).bytes.length
  rw [decide_eq_true rfl] at hcomplete
  have hsize : (frameOf net m).hdr.nMessageSize.toNat = m.2.1.length := Frame.nMessageSize_hdr
  have heq : (frameOf net m).received net (frameOf net m).bytes.length =
      { in_data := true, hdrbuf := [], hdr := (frameOf net m).hdr, nHdrPos := 24
        vRecv := m.2.1, nDataPos := m.2.1.length } := by
    rw [Frame.length_bytes, Frame.received, if_neg (by omega), Nat.add_sub_cancel_left,
      filledTo_length]
    rfl
  rw [heq] at hcomplete ⊢
  refine ⟨?_, hsize, rfl⟩
  have hvalid : (frameOf net m).hdr.isValid net.pchMessageStart = true := by
    rw [CMessageHeader.isValid, hsize, decide_eq_true m.2.2, Bool.and_true, Bool.and_eq_true]
    refine ⟨decide_eq_true rfl, ?_⟩
    change CMessageHeader.isValidCommand (CMessageHeader.copyCommand m.1.psz) = true
    rw [m.1.copyCommand_psz, Command.isValidCommand_append m.1.printable]
  rw [CNetMessage.accepted, hcomplete, hvalid, hsize, List.take_length,
    m.1.getCommand_copyCommand rfl]
  simp [frameOf, Frame.hdr]

/-- The receiver puts exactly the messages together that were pushed, from any chunks, if no message
is begun while `2 ^ 31` bytes or more are not sent yet. -/
theorem receives_run (net : Network) (ops : List SendState.Op)
    (h : SendState.AllMeet net {} ops) :
    ∃ vRecvMsg : List CNetMessage, List.Forall₂ (Carries net) vRecvMsg (pushed ops) ∧
      ∀ chunks : List Bytes, chunks.flatten = (SendState.run net {} ops).stream →
        receiveChunks net [] chunks = (.ok true, vRecvMsg) := by
  have hstream : (SendState.run net {} ops).stream =
      ((pushed ops).map (frameOf net)).flatMap Frame.bytes := (SendState.run_stream rfl h).2
  refine ⟨((pushed ops).map (frameOf net)).map fun f => f.received net f.bytes.length, ?_, ?_⟩
  · rw [List.map_map, List.forall₂_map_left_iff, List.forall₂_same]
    exact fun m _ => carries_received net m
  · intro chunks hchunks
    have hreceive := @receiveChunks_eq net ((pushed ops).map (frameOf net)) 0 chunks
      (by rw [hchunks, hstream, List.drop_zero])
    rwa [assembled_zero, hchunks, hstream, Nat.zero_add, assembled_all] at hreceive

/-- A command without arguments. -/
def verack : Command where
  psz := [0x76, 0x65, 0x72, 0x61, 0x63, 0x6b]
  length_psz := by decide
  printable := by
    have hall : ([0x76, 0x65, 0x72, 0x61, 0x63, 0x6b].all fun c : UInt8 =>
        decide (0x20 ≤ c ∧ c ≤ 0x7e)) = true := by decide
    exact fun c hc => of_decide_eq_true (List.all_eq_true.mp hall c hc)

/-- The network with the hash of empty data for all data. -/
def emptyNetwork : Network where
  pchMessageStart := [0xdb, 0xad, 0xbd, 0xda]
  length_pchMessageStart := rfl
  hash _ := 0x56944c5d3f98413ef45cf54545538103cc9f298e0575820ad3591376e2e0f65d

/-- A message, one that is aborted, the socket that takes ten bytes, and a message again. -/
def veracks : List SendState.Op :=
  [.pushMessage verack ⟨[], by decide⟩ false, .pushMessage verack ⟨[], by decide⟩ true,
    .socketSend 10, .pushMessage verack ⟨[], by decide⟩ false]

theorem receives_run_veracks :
    SendState.AllMeet emptyNetwork {} veracks ∧
      ∃ vRecvMsg : List CNetMessage, List.Forall₂ (Carries emptyNetwork) vRecvMsg (pushed veracks) ∧
        ∀ chunks : List Bytes, chunks.flatten = (SendState.run emptyNetwork {} veracks).stream →
          receiveChunks emptyNetwork [] chunks = (.ok true, vRecvMsg) := by
  have hmeet : SendState.AllMeet emptyNetwork {} veracks := by
    simp only [SendState.AllMeet, veracks, SendState.Meets]
    decide +kernel
  exact ⟨hmeet, receives_run emptyNetwork veracks hmeet⟩

/-! ## A message that is begun late -/

namespace SendState

variable {net : Network} {s : SendState}

/-- Nothing is sent by pushing a message. -/
lemma pushMessage_sent (hready : s.nHeaderStart = -1) (psz a : Bytes) :
    (s.pushMessage net psz a false).sent = s.sent := by
  rw [pushMessage, shiftLeft_beginMessage hready, endMessage, if_neg Bool.false_ne_true]
  split <;> rfl

/-- A header that is begun behind `2 ^ 31` bytes or more keeps the size and the checksum that it
had at first. -/
lemma pushMessage_late (hready : s.nHeaderStart = -1) (hlow : 2 ^ 31 ≤ s.vSend.size)
    (hhigh : s.vSend.size < 2 ^ 32) (psz a : Bytes) :
    (s.pushMessage net psz a false).stream = s.stream ++ ((begun net psz).serialize ++ a) := by
  have hneg : Int32.ofNat s.vSend.size < 0 := by
    rw [Int32.lt_iff_toInt_lt, Int32.toInt_ofNat', Int.bmod_def,
      show Int32.size = 4294967296 from rfl]
    change _ < (0 : ℤ)
    split_ifs <;> omega
  rw [pushMessage, shiftLeft_beginMessage hready, endMessage, if_neg Bool.false_ne_true,
    if_pos hneg]
  dsimp only [stream]
  rw [unread_begun, List.append_assoc]

lemma run_concat (ops : List Op) (op : Op) :
    s.run net (ops ++ [op]) = (s.run net ops).step net op := by
  rw [run, run, List.foldl_append]
  rfl

end SendState

/-- A message of the greatest size. -/
def full : Command × Payload :=
  (verack, ⟨List.replicate MAX_SIZE 0, List.length_replicate.le⟩)

lemma length_full : (frameOf net full).bytes.length = 33554456 := by
  rw [Frame.length_bytes]
  exact congrArg (24 + ·) List.length_replicate

lemma length_fulls (k : ℕ) :
    (((List.replicate k full).map (frameOf net)).flatMap Frame.bytes).length = k * 33554456 := by
  induction k with
  | zero => rw [Nat.zero_mul]; rfl
  | succ k ih =>
    rw [List.replicate_succ, List.map_cons, List.flatMap_cons, List.length_append, ih, length_full,
      Nat.succ_mul, Nat.add_comm]

/-- It is pushed several times. -/
def fulls (k : ℕ) : List SendState.Op :=
  List.replicate k (.pushMessage full.1 full.2 false)

lemma pushed_fulls (k : ℕ) : pushed (fulls k) = List.replicate k full := by
  induction k with
  | zero => rfl
  | succ k ih =>
    rw [fulls, List.replicate_succ, pushed, ← fulls, ih]
    rfl

/-- The buffer holds sixty-four of them. -/
lemma run_fulls {net : Network} {s : SendState} {k : ℕ} (hready : s.nHeaderStart = -1)
    (h : s.vSend.size + k * 33554456 < 2 ^ 31 + 33554456) :
    SendState.AllMeet net s (fulls k) ∧ (s.run net (fulls k)).sent = s.sent := by
  induction k generalizing s with
  | zero => exact ⟨trivial, rfl⟩
  | succ k ih =>
    have hsize : s.vSend.size < 2 ^ 31 := by omega
    obtain ⟨hready', hstream⟩ := @SendState.pushMessage_false net s hready hsize full.1 full.2
    have hsent := @SendState.pushMessage_sent net s hready full.1.psz full.2.1
    have hlength := congrArg List.length hstream
    rw [SendState.stream, SendState.stream, hsent, List.length_append, List.length_append,
      List.length_append, length_full] at hlength
    have hnext : (s.pushMessage net full.1.psz full.2.1 false).vSend.size + k * 33554456 <
        2 ^ 31 + 33554456 := by
      rw [CDataStream.size] at h ⊢
      omega
    obtain ⟨hmeet, hrun⟩ := ih hready' hnext
    exact ⟨⟨hsize, hmeet⟩, hrun.trans hsent⟩

/-- What the receiver takes the header without a size for. -/
def unfinished (net : Network) : Frame where
  pchMessageStart := net.pchMessageStart
  pchCommand := CMessageHeader.copyCommand full.1.psz
  nChecksum := 0
  data := ⟨[], Nat.zero_le _⟩
  length_pchMessageStart := net.length_pchMessageStart
  length_pchCommand := List.takeD_length _ _ _

/-- What it takes the data behind this header for. -/
def misread : Frame where
  pchMessageStart := List.replicate 4 0
  pchCommand := List.replicate 12 0
  nChecksum := 0
  data := ⟨[], Nat.zero_le _⟩
  length_pchMessageStart := rfl
  length_pchCommand := rfl

/-- A node that has sixty-four full messages in its buffer pushes one byte more. -/
theorem not_receives_run :
    ¬ ∀ (net : Network) (ops : List SendState.Op),
      ∃ vRecvMsg : List CNetMessage, List.Forall₂ (Carries net) vRecvMsg (pushed ops) ∧
        ∀ chunks : List Bytes, chunks.flatten = (SendState.run net {} ops).stream →
          receiveChunks net [] chunks = (.ok true, vRecvMsg) := by
  intro hall
  replace hall := hall emptyNetwork
  generalize emptyNetwork = net at hall
  obtain ⟨s, hs⟩ : ∃ s, s = SendState.run net {} (fulls 64) := ⟨_, rfl⟩
  obtain ⟨last, hlast⟩ : ∃ last : SendState.Op,
    last = .pushMessage full.1 ⟨[0], by decide⟩ false := ⟨_, rfl⟩
  obtain ⟨fs, hfs⟩ : ∃ fs, fs = (List.replicate 64 full).map (frameOf net) := ⟨_, rfl⟩
  obtain ⟨hmeet, hsent⟩ := @run_fulls net {} 64 rfl (by decide)
  replace hsent : (SendState.run net {} (fulls 64)).sent = [] := hsent
  obtain ⟨hready, hstream⟩ := @SendState.run_stream net {} (fulls 64) rfl hmeet
  rw [pushed_fulls, ← hs, ← hfs] at hstream
  rw [← hs] at hsent hready
  have hstream' : s.stream = fs.flatMap Frame.bytes := hstream
  have hlength : (fs.flatMap Frame.bytes).length = 2147485184 := by
    rw [hfs, length_fulls]
  have hsize : s.vSend.size = 2147485184 := by
    rw [← hlength, ← hstream', SendState.stream, hsent, List.nil_append, CDataStream.size]
  -- the last message has no size, and the byte behind it begins another one
  have hlate := @SendState.pushMessage_late net s hready (by rw [hsize]; decide)
    (by rw [hsize]; decide) full.1.psz [0]
  have hrun : SendState.run net {} (fulls 64 ++ [last]) =
      s.pushMessage net full.1.psz [0] false := by
    rw [SendState.run_concat, ← hs, hlast, SendState.step]
  obtain ⟨vRecvMsg, hcarries, hreceive⟩ := hall (fulls 64 ++ [last])
  have hmisread : (fs ++ [unfinished net, misread]).flatMap Frame.bytes =
      s.stream ++ ((SendState.begun net full.1.psz).serialize ++ [0]) ++ List.replicate 23 0 := by
    have hunfinished : (unfinished net).bytes = (SendState.begun net full.1.psz).serialize :=
      List.append_nil _
    have hbytes : misread.bytes = [0] ++ List.replicate 23 0 := by decide
    rw [List.flatMap_append, ← hstream', List.flatMap_cons, List.flatMap_singleton, hunfinished,
      hbytes]
    simp only [List.append_assoc]
  have hassembled := @receiveChunks_eq net (fs ++ [unfinished net, misread]) 0
    [s.stream ++ ((SendState.begun net full.1.psz).serialize ++ [0])]
    (by rw [List.flatten_singleton, List.drop_zero, hmisread]; exact List.prefix_append _ _)
  have hchunks := hreceive [s.stream ++ ((SendState.begun net full.1.psz).serialize ++ [0])]
    (by rw [hrun, hlate, List.flatten_singleton])
  have hbytes : 0 + [s.stream ++ ((SendState.begun net full.1.psz).serialize ++ [0])].flatten.length
      = (fs.flatMap Frame.bytes).length + 25 := by
    rw [List.flatten_singleton, Nat.zero_add, List.length_append, List.length_append, hstream',
      SendState.length_begun, List.length_singleton]
  rw [assembled_zero, hchunks, hbytes, assembled_append, Prod.mk.injEq] at hassembled
  have htwo : (assembled net [unfinished net, misread] 25).length = 2 := by
    have hbegun : (unfinished net).bytes.length = 24 := Frame.length_bytes
    rw [assembled_of_le (by rw [hbegun]; decide), hbegun, assembled_of_lt (by decide) (by decide)]
    rfl
  have hmany := hcarries.length_eq
  rw [hassembled.2, SendState.pushed_append, pushed_fulls, List.length_append, List.length_append,
    List.length_map, htwo, hfs, List.length_map, List.length_replicate, hlast] at hmany
  exact absurd hmany (by decide)

end HyperStake.Net
